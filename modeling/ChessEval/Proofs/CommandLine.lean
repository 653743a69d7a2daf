/-
  ChessEval.Proofs.CommandLine — what the command computes, whatever way it is asked.

  The arguments after the files are options with their values and moves (`Argument`). If
  they make sense, they come down to three things: the text of the last position, that of
  the last depth, and the moves in order (`requested`); how they are mixed does not matter.

  - `scan_eq_ok_iff`: arguments are scanned without an error exactly if they are such a
    list, each one making sense, and the request is the one that they come down to.
  - `follow_of_plays`: if every move can be played, the line tracks the boards to the last.
  - `follow_of_stops`: otherwise the first move that cannot be played ends it.
  - `check_fresh`: a line that has not been scored yet is of the phase that the middlegame
    network's score speaks for, at any depth.
  - `command_scores_the_last_board`: so the report is about the last board alone, with
    the number of moves and the advantage at the root; or it names the first move refused.
-/

import ChessEval.CommandLine
import ChessEval.Proofs.Board.FenRoundTrip
import ChessEval.Proofs.Line.Stackless
import ChessEval.Proofs.Network.Blob
import ChessEval.Proofs.Network.Forward
import Mathlib.Data.List.Induction

namespace ChessEval.CommandLine

/-! ## Arguments -/

/-- An option with its value, or a move. -/
inductive Argument where
  | fen (text : String)
  | depth (text : String)
  | move (text : String)
  deriving DecidableEq, Repr

namespace Argument

def words : Argument → List String
  | fen text => ["--fen", text]
  | depth text => ["--depth", text]
  | move text => [text]

def fen? : Argument → Option String
  | fen text => some text
  | _ => none

def depth? : Argument → Option String
  | depth text => some text
  | _ => none

def move? : Argument → Option String
  | move text => some text
  | _ => none

/-- The value can be read, and no move is named like an option. -/
def Legible : Argument → Prop
  | fen text => ∃ b, Board.ofFen text = .ok b
  | depth text => ∃ n, Text.signed? 32 text.toList = some n
  | move text => text ≠ "--fen" ∧ text ≠ "--depth"

end Argument

/-- The board of a position's text, which can be read. -/
def boardOf (text : String) : Board := (Board.ofFen text).toOption.getD .start

/-- The depth of a text, which can be read. -/
def depthOf (text : String) : Int := (Text.signed? 32 text.toList).getD 0

/-- The request for a position, by default the initial one, a depth, by default 0, and moves. -/
def requested (fen depth : Option String) (moves : List String) : Request :=
  ⟨(fen.map boardOf).getD .start, (depth.map depthOf).getD 0, moves⟩

/-- The request after one more argument. -/
def Request.take (r : Request) : Argument → Request
  | .fen text => { r with board := boardOf text }
  | .depth text => { r with depth := depthOf text }
  | .move text => { r with moves := r.moves ++ [text] }

/-- Taken one after the other, the last of each option counts, and every move. -/
theorem foldl_take (args : List Argument) :
    args.foldl Request.take .initial =
      requested (args.filterMap Argument.fen?).getLast? (args.filterMap Argument.depth?).getLast?
        (args.filterMap Argument.move?) := by
  induction args using List.reverseRecOn with
  | nil => rfl
  | append_singleton args a ih =>
    rw [List.foldl_append, ih]
    cases a <;> simp [requested, Request.take, Argument.fen?, Argument.depth?, Argument.move?]

theorem scan_words {r : Request} {args : List Argument} (h : ∀ a ∈ args, a.Legible) :
    scan r (args.flatMap Argument.words) = .ok (args.foldl Request.take r) := by
  induction args generalizing r with
  | nil => rfl
  | cons a args ih =>
    have ha := h a List.mem_cons_self
    have ih := fun r => @ih r fun a' ha' => h a' (List.mem_cons_of_mem a ha')
    cases a with
    | fen text =>
      obtain ⟨b, hb⟩ := ha
      simp only [List.flatMap_cons, Argument.words, List.cons_append, List.nil_append, scan, hb, ih]
      simp [Request.take, boardOf, hb, Except.toOption]
    | depth text =>
      obtain ⟨n, hn⟩ := ha
      simp only [List.flatMap_cons, Argument.words, List.cons_append, List.nil_append, scan, hn, ih]
      simp [Request.take, depthOf, hn]
    | move text =>
      obtain ⟨hfen, hdepth⟩ := ha
      simp only [List.flatMap_cons, Argument.words, List.cons_append, List.nil_append]
      rw [scan, ih]
      · rfl
      all_goals simp_all

/-- The arguments are a list of options and moves that make sense, and add up to the second request. -/
def Asks (r : Request) (args : List String) (r' : Request) : Prop :=
  ∃ as : List Argument, args = as.flatMap Argument.words ∧ (∀ a ∈ as, a.Legible) ∧ as.foldl Request.take r = r'

theorem Asks.cons {r r' : Request} {a : Argument} {rest : List String} (ha : a.Legible) (h : Asks (r.take a) rest r') :
    Asks r (a.words ++ rest) r' := by
  obtain ⟨as, rfl, has, rfl⟩ := h
  exact ⟨a :: as, rfl, List.forall_mem_cons.mpr ⟨ha, has⟩, rfl⟩

theorem asks_of_scan {r r' : Request} {args : List String} (h : scan r args = .ok r') : Asks r args r' := by
  fun_induction scan r args with
  | case1 r =>
    cases h
    exact ⟨[], rfl, by simp, rfl⟩
  | case2 r text rest b hb ih =>
    have htake : r.take (.fen text) = { r with board := b } := by simp [Request.take, boardOf, hb, Except.toOption]
    exact Asks.cons (a := .fen text) ⟨b, hb⟩ (htake ▸ ih h)
  | case3 => cases h
  | case4 => cases h
  | case5 r text rest depth hdepth ih =>
    have htake : r.take (.depth text) = { r with depth } := by simp [Request.take, depthOf, hdepth]
    exact Asks.cons (a := .depth text) ⟨depth, hdepth⟩ (htake ▸ ih h)
  | case6 => cases h
  | case7 => cases h
  | case8 r text rest hfen hfen' hdepth hdepth' ih =>
    have hlegible : (Argument.move text).Legible := by
      constructor
      · intro he
        cases rest with
        | nil => exact hfen' he rfl
        | cons value rest => exact hfen value rest he rfl
      · intro he
        cases rest with
        | nil => exact hdepth' he rfl
        | cons value rest => exact hdepth value rest he rfl
    exact Asks.cons hlegible (ih h)

/-- Arguments are scanned without an error if and only if each of them makes sense. -/
theorem scan_eq_ok_iff {r r' : Request} {args : List String} : scan r args = .ok r' ↔ Asks r args r' := by
  constructor
  · exact asks_of_scan
  · rintro ⟨as, rfl, has, rfl⟩
    exact scan_words has

/-! ## Moves -/

/-- Every text is a move, and the moves, played one after the other, lead to the last board. -/
inductive Plays : Board → List String → Board → Prop
  | nil (b : Board) : Plays b [] b
  | cons {b last : Board} {text : String} {m : Move} {p : Played} {rest : List String} :
      Move.ofText text = .ok m → b.play m = .ok p → Plays p.board rest last → Plays b (text :: rest) last

/-- The text is no move, or a move that is refused on the board. -/
inductive Refused (b : Board) (text : String) : String → Prop
  | unreadable {e : MoveTextError} : Move.ofText text = .error e → Refused b text e.message
  | illegal {m : Move} {e : MoveError} : Move.ofText text = .ok m → b.play m = .error e → Refused b text e.message

/-- The first text that cannot be played, and why, those before it having been played. -/
def Stops (b : Board) (texts : List String) (text reason : String) : Prop :=
  ∃ before after b', texts = before ++ text :: after ∧ Plays b before b' ∧ Refused b' text reason

/-- The move, if the text is one, leaves its square. -/
def Leaves (text : String) : Prop := ∀ m, Move.ofText text = .ok m → m.origin ≠ m.target

theorem leaves_of_eq {text : String} {m : Move} (hm : Move.ofText text = .ok m) (hne : m.origin ≠ m.target) :
    Leaves text := by
  intro m' hm'
  rw [hm] at hm'
  cases hm'
  exact hne

theorem plays_or_stops (b : Board) (texts : List String) :
    (∃ last, Plays b texts last) ∨ ∃ text reason, Stops b texts text reason := by
  induction texts generalizing b with
  | nil => exact Or.inl ⟨b, .nil b⟩
  | cons text rest ih =>
    cases hm : Move.ofText text with
    | error e => exact Or.inr ⟨text, _, [], rest, b, rfl, .nil b, .unreadable hm⟩
    | ok m =>
      cases hp : b.play m with
      | error e => exact Or.inr ⟨text, _, [], rest, b, rfl, .nil b, .illegal hm hp⟩
      | ok p =>
        rcases ih p.board with ⟨last, hlast⟩ | ⟨stop, reason, before, after, b', rfl, hplays, hrefused⟩
        · exact Or.inl ⟨last, .cons hm hp hlast⟩
        · exact Or.inr ⟨stop, reason, text :: before, after, b', rfl, .cons hm hp hplays, hrefused⟩

theorem playText_of_ok {b : Board} {text : String} {m : Move} {p : Played} (hm : Move.ofText text = .ok m)
    (hp : b.play m = .ok p) : playText b text = .ok p := by
  simp only [playText, hm, hp]

theorem playText_of_refused {b : Board} {text reason : String} (h : Refused b text reason) :
    playText b text = .error reason := by
  cases h with
  | unreadable hm => simp only [playText, hm]
  | illegal hm hp => simp only [playText, hm, hp]

/-- With room for all moves, the line follows them to the first that cannot be played. -/
theorem follow_of_stops {l : Line} {b : Board} {texts : List String} {text reason : String}
    (hroom : l.ply + texts.length ≤ maxPly) (h : Stops b texts text reason) :
    follow l b texts = .error (.rejected text reason) := by
  obtain ⟨before, after, b', rfl, hplays, hrefused⟩ := h
  induction hplays generalizing l with
  | nil b => rw [List.nil_append, follow, playText_of_refused hrefused]
  | @cons b last text m p rest hm hp hplays ih =>
    rw [List.cons_append, List.length_cons] at hroom
    obtain ⟨l', hpush, hply⟩ := Line.push_of_lt (show l.ply < maxPly by omega) p.board.toPosition p.change
    simp only [List.cons_append, follow, playText_of_ok hm hp, hpush]
    exact ih (by omega) hrefused

/-- With room for all moves, the line follows those that leave their squares to the last board. -/
theorem follow_of_plays {n : PhaseNetworks} {t : Tuning} {l : Line} {w : Walk} {texts : List String} {last : Board}
    (hl : Line.Tracks n t w l) (hroom : w.past.length + texts.length ≤ maxPly) (h : Plays w.board texts last)
    (hleaves : ∀ text ∈ texts, Leaves text) :
    ∃ l' past, follow l w.board texts = .ok (l', last) ∧ Line.Tracks n t ⟨last, past⟩ l' ∧
      l'.ply = w.past.length + texts.length ∧ l'.stackless = l.stackless := by
  obtain ⟨b, past⟩ := w
  simp only at h hroom
  induction h generalizing l past with
  | nil b => exact ⟨l, past, rfl, hl, hl.ply, rfl⟩
  | @cons b last text m p rest hm hp hplays ih =>
    rw [List.length_cons] at hroom
    have hne : m.origin ≠ m.target := hleaves text List.mem_cons_self m hm
    obtain ⟨l₁, hpush, htracks, -⟩ := Line.push_tracks hl hp hne (show past.length < maxPly by omega)
    obtain ⟨l', past', hfollow, htracks', hply, hstate⟩ :=
      ih (fun text' h' => hleaves text' (List.mem_cons_of_mem text h')) _ htracks
        (show past.length + 1 + rest.length ≤ maxPly by omega)
    refine ⟨l', past', ?_, htracks', ?_, hstate.trans (Line.push_stackless hpush)⟩
    · simp only [follow, playText_of_ok hm hp, hpush]
      exact hfollow
    · rw [hply, List.length_cons, List.length_cons]
      omega

/-! ## The report -/

/-- The three paths name files from which the networks load. -/
def Loads (read : String → FileRead) (middlegame endgame sacrifice : String) (n : PhaseNetworks) : Prop :=
  Network.load (read middlegame) = .ok n.middlegame ∧ Network.load (read endgame) = .ok n.endgame ∧
    Network.load (read sacrifice) = .ok n.sacrifice

theorem run_of_scan {read : String → FileRead} {middlegame endgame sacrifice : String} {n : PhaseNetworks}
    {args : List String} {r : Request} (hload : Loads read middlegame endgame sacrifice n)
    (hscan : scan .initial args = .ok r) :
    run read (middlegame :: endgame :: sacrifice :: args) = evaluateRequest n r := by
  obtain ⟨hm, he, hs⟩ := hload
  simp only [run, PhaseNetworks.loadEach, hm, he, hs, hscan, Bool.and_self]

/-- A line not scored before takes the phase that the middlegame network's score speaks for; below
    the check depth that is the middlegame. -/
theorem check_fresh (n : PhaseNetworks) (t : Tuning) (pos : Position) (depth rootAdvantage : Int) :
    (Stackless.check ⟨.initial, none, rootAdvantage⟩ n t pos depth).phase =
      Phase.ofScore (Stackless.score n pos .middlegame) depth t := by
  unfold Stackless.check
  by_cases hdeep : t.phaseCheckDepth ≤ depth
  · rw [if_pos ⟨hdeep, nofun⟩]
    rfl
  · rw [if_neg fun h => hdeep h.1, Phase.ofScore, if_neg hdeep]
    rfl

theorem check_rootAdvantage (s : Stackless) (n : PhaseNetworks) (t : Tuning) (pos : Position) (depth : Int) :
    (s.check n t pos depth).rootAdvantage = s.rootAdvantage := by
  unfold Stackless.check
  split
  · rfl
  · rfl

/-- The lines on a decisive score: that it was not adjusted, and no stage. -/
theorem report_of_bypassed {tr : Trace} (h : tr.bypassed = true) (b : Board) (phase : Phase) :
    report b phase tr =
      ["fen: " ++ b.fen, "side_to_move: " ++ sideName b.sideToMove, "phase: " ++ phase.name, "raw: " ++ toString tr.raw,
        "decisive score, modifiers skipped", "final: " ++ toString tr.final] := by
  rw [report, if_pos h]
  rfl

/-- The lines on any other score: every stage in order. -/
theorem report_of_adjusted {tr : Trace} (h : tr.bypassed = false) (b : Board) (phase : Phase) :
    report b phase tr =
      ["fen: " ++ b.fen, "side_to_move: " ++ sideName b.sideToMove, "phase: " ++ phase.name, "raw: " ++ toString tr.raw,
        "better_than_material: " ++ toString tr.excess, "sacrifice_bonus: " ++ toString tr.sacrifice,
        "scaled: " ++ toString tr.scaled, "contempt: " ++ toString tr.contempt, "final: " ++ toString tr.final] := by
  rw [report, if_neg (Bool.eq_false_iff.mp h)]
  rfl

/-- The phase that the middlegame network's score of the position speaks for. -/
def phaseOf (n : PhaseNetworks) (pos : Position) (depth : Int) : Phase :=
  Phase.ofScore (Stackless.score n pos .middlegame) depth {}

/-- The adjusted score of the position under the network of its phase, `ply` moves from a root
    with the advantage given. -/
def traceOf (n : PhaseNetworks) (pos : Position) (depth : Int) (ply : Nat) (rootAdvantage : Int) : Except Fault Trace :=
  Score.trace (Stackless.score n pos (phaseOf n pos depth)) (.ofPosition pos ply rootAdvantage) {}

theorem traceOf_ok (n : PhaseNetworks) (pos : Position) (depth : Int) (ply : Nat) (rootAdvantage : Int) :
    ∃ tr, traceOf n pos depth ply rootAdvantage = .ok tr :=
  Score.trace_ok ⟨by decide, by decide, by decide⟩ _ _

/-- The first scoring of a line is that of the position alone. -/
theorem evaluate_first {n : PhaseNetworks} {l : Line} {w : Walk} {rootAdvantage : Int} (hl : Line.Tracks n {} w l)
    (hfirst : l.stackless = ⟨.initial, none, rootAdvantage⟩) (depth : Int) (ply : Nat) :
    (l.evaluate w.board.toPosition depth ply).1 = traceOf n w.board.toPosition depth ply rootAdvantage ∧
      (l.evaluate w.board.toPosition depth ply).2.phase = phaseOf n w.board.toPosition depth := by
  have hphase : (l.stackless.check n {} w.board.toPosition depth).phase = phaseOf n w.board.toPosition depth := by
    rw [hfirst]
    exact check_fresh n {} w.board.toPosition depth rootAdvantage
  have hroot : (l.stackless.check n {} w.board.toPosition depth).rootAdvantage = rootAdvantage := by
    rw [check_rootAdvantage, hfirst]
  obtain ⟨htrace, hafter⟩ := Line.evaluate_refines depth ply hl.built
  rw [hl.networks, hl.tuning] at htrace hafter
  constructor
  · rw [htrace, traceOf, ← hphase]
    show Score.trace _ (.ofPosition w.board.toPosition ply (l.stackless.check n {} w.board.toPosition depth).rootAdvantage)
      {} = _
    rw [hroot]
  · rw [← hphase]
    exact congrArg Stackless.phase hafter

theorem evaluateRequest_of_follow {n : PhaseNetworks} {r : Request} {l : Line} {last : Board} {tr : Trace}
    (hfollow : follow (.start n r.board.toPosition {}) r.board r.moves = .ok (l, last))
    (hevaluate : (l.evaluate last.toPosition r.depth l.ply).1 = .ok tr) :
    evaluateRequest n r = ⟨0, report last (l.evaluate last.toPosition r.depth l.ply).2.phase tr, []⟩ := by
  rcases hresult : l.evaluate last.toPosition r.depth l.ply with ⟨answer, l'⟩
  rw [hresult] at hevaluate
  simp only [evaluateRequest, hfollow, hresult, show answer = .ok tr from hevaluate]

/-- The report on the last board, whatever line led to it. -/
theorem evaluateRequest_of_plays {n : PhaseNetworks} {r : Request} {last : Board} {tr : Trace}
    (hroom : r.moves.length ≤ maxPly) (hplays : Plays r.board r.moves last) (hleaves : ∀ text ∈ r.moves, Leaves text)
    (htr : traceOf n last.toPosition r.depth r.moves.length (Line.advantageOf r.board.toPosition) = .ok tr) :
    evaluateRequest n r = ⟨0, report last (phaseOf n last.toPosition r.depth) tr, []⟩ := by
  have hroom' : (Walk.start r.board).past.length + r.moves.length ≤ maxPly := by simpa [Walk.start] using hroom
  obtain ⟨l, past, hfollow, htracks, hply, hstate⟩ :=
    follow_of_plays (Line.start_tracks n r.board {}) hroom' hplays hleaves
  have hcount : l.ply = r.moves.length := hply.trans (Nat.zero_add _)
  obtain ⟨htrace, hphase⟩ := evaluate_first htracks hstate r.depth l.ply
  rw [← hcount] at htr
  rw [evaluateRequest_of_follow hfollow (htrace.trans htr), ← hphase]

theorem evaluateRequest_of_stops {n : PhaseNetworks} {r : Request} {text reason : String}
    (hroom : r.moves.length ≤ maxPly) (h : Stops r.board r.moves text reason) :
    evaluateRequest n r = ⟨2, [], [s!"cannot play {text}: {reason}"]⟩ := by
  have hroom' : (Line.start n r.board.toPosition {}).ply + r.moves.length ≤ maxPly := by
    rw [(Line.start_tracks n r.board {}).ply]
    simpa [Walk.start] using hroom
  rw [evaluateRequest, follow_of_stops hroom' h]
  rfl

/-! ## The command -/

/-- If the files load and the arguments are scanned without an error, the outcome is settled by
    the last position, the last depth and the moves in order. With moves for the depth of the
    stack at most: if all can be played and leave their squares, the lines printed give the last
    board and its side to move, the phase that the middlegame network's score of it speaks for, its score
    under that phase's network, each stage of the adjustment, or that a decisive score has none,
    and the final score; otherwise the first move that cannot be played is named, and nothing is printed. -/
theorem command_scores_the_last_board {read : String → FileRead} {middlegame endgame sacrifice : String}
    {n : PhaseNetworks} {args : List String} {r : Request} (hload : Loads read middlegame endgame sacrifice n)
    (hscan : scan .initial args = .ok r) :
    let outcome := run read (middlegame :: endgame :: sacrifice :: args)
    (∃ as : List Argument, args = as.flatMap Argument.words ∧ (∀ a ∈ as, a.Legible) ∧
      r = requested (as.filterMap Argument.fen?).getLast? (as.filterMap Argument.depth?).getLast?
        (as.filterMap Argument.move?)) ∧
    outcome = evaluateRequest n r ∧
    (r.moves.length ≤ maxPly →
      ((∃ last, Plays r.board r.moves last) ∨ ∃ text reason, Stops r.board r.moves text reason) ∧
      (∀ last, Plays r.board r.moves last → (∀ text ∈ r.moves, Leaves text) →
        ∃ tr, traceOf n last.toPosition r.depth r.moves.length (Line.advantageOf r.board.toPosition) = .ok tr ∧
          tr.raw = Stackless.score n last.toPosition (phaseOf n last.toPosition r.depth) ∧
          outcome = ⟨0, report last (phaseOf n last.toPosition r.depth) tr, []⟩ ∧
          (tr.bypassed = true → outcome.out =
            ["fen: " ++ last.fen, "side_to_move: " ++ sideName last.sideToMove,
              "phase: " ++ (phaseOf n last.toPosition r.depth).name, "raw: " ++ toString tr.raw,
              "decisive score, modifiers skipped", "final: " ++ toString tr.final]) ∧
          (tr.bypassed = false → outcome.out =
            ["fen: " ++ last.fen, "side_to_move: " ++ sideName last.sideToMove,
              "phase: " ++ (phaseOf n last.toPosition r.depth).name, "raw: " ++ toString tr.raw,
              "better_than_material: " ++ toString tr.excess, "sacrifice_bonus: " ++ toString tr.sacrifice,
              "scaled: " ++ toString tr.scaled, "contempt: " ++ toString tr.contempt, "final: " ++ toString tr.final])) ∧
      ∀ text reason, Stops r.board r.moves text reason → outcome = ⟨2, [], [s!"cannot play {text}: {reason}"]⟩) := by
  intro outcome
  have houtcome : outcome = evaluateRequest n r := run_of_scan hload hscan
  obtain ⟨as, rfl, has, hr⟩ := asks_of_scan hscan
  refine ⟨⟨as, rfl, has, by rw [← hr, foldl_take]⟩, houtcome, fun hroom => ⟨plays_or_stops _ _, ?_, ?_⟩⟩
  · intro last hplays hleaves
    obtain ⟨tr, htr⟩ := traceOf_ok n last.toPosition r.depth r.moves.length (Line.advantageOf r.board.toPosition)
    have hreport := houtcome.trans (evaluateRequest_of_plays hroom hplays hleaves htr)
    refine ⟨tr, htr, Score.trace_raw htr, hreport, fun h => ?_, fun h => ?_⟩
    · rw [hreport, report_of_bypassed h]
    · rw [hreport, report_of_adjusted h]
  · intro text reason hstops
    exact houtcome.trans (evaluateRequest_of_stops hroom hstops)

/-- Options between the moves, one of them twice, and a position that is read. Black's queen takes White's
    over the pawns, the middlegame network's 400 speaks for a sacrifice, and the sacrifice network says 200. -/
theorem command_scores_a_mixed_request :
    let saying (bias : Int16) : Network := { Network.zero with outputBias := bias }
    let n : PhaseNetworks := ⟨saying 16320, saying 0, saying 8160⟩
    let read (path : String) : FileRead :=
      ⟨path, .ok (if path = "m" then n.middlegame else if path = "e" then n.endgame else n.sacrifice).toBlob⟩
    let args : List String := ["a2a3", "--depth", "-3", "--fen", Board.start.fen, "d8d1", "--depth", "6"]
    let r : Request := ⟨.start, 6, ["a2a3", "d8d1"]⟩
    Loads read "m" "e" "s" n ∧ scan .initial args = .ok r ∧
      (∃ last, Plays r.board r.moves last) ∧ (∀ text ∈ r.moves, Leaves text) ∧
      run read ("m" :: "e" :: "s" :: args) =
        ⟨0, ["fen: rnb1kbnr/pppppppp/8/8/8/P7/1PPPPPPP/RNBqKBNR w KQkq - 0 2", "side_to_move: white", "phase: sacrifice",
          "raw: 200", "better_than_material: 130", "sacrifice_bonus: 40", "scaled: 373", "contempt: 50", "final: 423"], []⟩ := by
  intro saying n read args r
  let a3 : Move := ⟨.ofCoords 1 0, .ofCoords 2 0, none⟩
  let queenTakes : Move := ⟨.ofCoords 7 3, .ofCoords 0 3, none⟩
  let p₁ := Board.start.carryOut ⟨.white, .pawn⟩ none a3
  let p₂ := p₁.board.carryOut ⟨.black, .queen⟩ (some ⟨⟨.white, .queen⟩, .ofCoords 0 3⟩) queenTakes
  have ha3 : Move.ofText "a2a3" = .ok a3 := by decide
  have hqueenTakes : Move.ofText "d8d1" = .ok queenTakes := by decide
  have hload : Loads read "m" "e" "s" n :=
    ⟨Network.ofBlob_toBlob n.middlegame, Network.ofBlob_toBlob n.endgame, Network.ofBlob_toBlob n.sacrifice⟩
  have hscan : scan .initial args = .ok r := by
    refine scan_eq_ok_iff.mpr ⟨[.move "a2a3", .depth "-3", .fen Board.start.fen, .move "d8d1", .depth "6"], rfl, ?_, ?_⟩
    · simp only [List.forall_mem_cons, Argument.Legible]
      exact ⟨by decide, ⟨-3, by decide⟩, ⟨.start, Board.ofFen_fen _⟩, by decide, ⟨6, by decide⟩, by simp⟩
    · have hboard : boardOf Board.start.fen = .start := by
        rw [boardOf, Board.ofFen_fen]
        rfl
      have hdepth : depthOf "6" = 6 := by decide
      simp [Request.take, Request.initial, hboard, hdepth, r]
  have hplays : Plays r.board r.moves p₂.board :=
    .cons ha3 (p := p₁) (by decide) (.cons hqueenTakes (p := p₂) (by decide) (.nil _))
  have hleaves : ∀ text ∈ r.moves, Leaves text :=
    List.forall_mem_cons.mpr
      ⟨leaves_of_eq ha3 (by decide), List.forall_mem_singleton.mpr (leaves_of_eq hqueenTakes (by decide))⟩
  obtain ⟨tr, htr, -, hrun, -, hlines⟩ :=
    ((command_scores_the_last_board hload hscan).2.2 (by decide)).2.1 p₂.board hplays hleaves
  have hscore (phase : Phase) :
      Stackless.score n p₂.board.toPosition phase = ((n.get phase).outputBias.toInt * 400).tdiv 16320 := by
    cases phase <;> exact Network.evaluate_of_weightless rfl rfl
  have hphase : phaseOf n p₂.board.toPosition 6 = .sacrifice := by
    rw [phaseOf, hscore]
    decide
  have hcontext : Context.ofPosition p₂.board.toPosition 2 (Line.advantageOf Board.start.toPosition) =
      ⟨2, 0, 7100, -900, 0⟩ := by decide +kernel
  have htrace : tr = ⟨200, false, 130, 40, 373, 50, 423⟩ := by
    have hanswer : traceOf n p₂.board.toPosition 6 2 (Line.advantageOf Board.start.toPosition) =
        .ok ⟨200, false, 130, 40, 373, 50, 423⟩ := by
      rw [traceOf, hphase, hscore, hcontext]
      decide
    exact Except.ok.inj (htr.symm.trans hanswer)
  subst htrace
  have hfen : "fen: " ++ p₂.board.fen = "fen: rnb1kbnr/pppppppp/8/8/8/P7/1PPPPPPP/RNBqKBNR w KQkq - 0 2" := by decide +kernel
  refine ⟨hload, hscan, ⟨_, hplays⟩, hleaves, ?_⟩
  have hout := hlines rfl
  rw [hphase, hfen, hrun] at hout
  rw [hrun]
  exact congrArg (Outcome.mk 0 · []) (hout.trans rfl)

end ChessEval.CommandLine
