import ChessEval.Main
import ChessEval.Stored
import ChessEval.Proofs.Board.Playing
import ChessEval.Proofs.Board.TakeBack
import ChessEval.Proofs.Board.Balance
import ChessEval.Proofs.Board.FenRoundTrip
import ChessEval.Proofs.Board.FenLanguage
import ChessEval.Proofs.Network.Sums
import ChessEval.Proofs.Score.Standard
import ChessEval.Proofs.Score.Decisive
import ChessEval.Proofs.Line.Walk
import ChessEval.Proofs.Line.Slots
import ChessEval.Proofs.Line.Stackless
import ChessEval.Proofs.Line.Course
import ChessEval.Proofs.Line.Restart
import ChessEval.Proofs.Line.Flip
import ChessEval.Proofs.Board.Flip
import ChessEval.Proofs.Network.Blob
import ChessEval.Proofs.CommandLine
import ChessEval.Proofs.Board.Rights
import ChessEval.Proofs.Board.Refusal
import ChessEval.Proofs.Line.Plies
import ChessEval.Proofs.Network.Edits
import ChessEval.Proofs.Network.Forward
import ChessEval.Proofs.Score.Arithmetic
import ChessEval.Proofs.Score.Shape
import ChessEval.Proofs.Score.Range
import ChessEval.Proofs.Score.Fading
import ChessEval.Proofs.Line.Settled
import ChessEval.Proofs.Line.RootSide
import ChessEval.Proofs.Phase.Memory
import ChessEval.Proofs.Score.Faults
import ChessEval.Proofs.Text.Bytes
import ChessEval.Proofs.SquareBytes
import ChessEval.Proofs.Board.MoveText
import ChessEval.Proofs.Board.ByBytes
import ChessEval.Proofs.HostSquares
