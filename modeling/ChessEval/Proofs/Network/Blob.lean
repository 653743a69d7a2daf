/-
  ChessEval.Proofs.Network.Blob — a network and its stored form hold the same words.

  The words of a network stand in one order (`Network.word`): the rows one after the other,
  the hidden bias, the output weights of both sides, the output bias. `Network.ofWords`
  fills a network from a run of words in that order; both sides of the codec are
  compared with it, and not with each other.

  - `run_nextNetwork`: the reader, which only knows the place of the next word, comes through all
    segments to the end of the words.
  - `ofBlob_eq_ofWords`: so what is read is filled by the words of the blob in order.
  - `bytes_toBlob_ofWords`: what is written is the bytes of the words in order.
  - `ofBlob_toBlob`, `toBlob_ofWords_wordAt`: so each undoes the other, as far as the words go.
  - `blob_codec`: the two together, with the blobs that are too long and too short.
-/

import ChessEval.Network.Blob

namespace ChessEval

namespace Network

/-! ## Words and bytes -/

/-- The bytes of a blob in order. -/
def bytes (data : ByteArray) : List UInt8 := data.data.toList

def lowByte (w : Int16) : UInt8 := w.toUInt16.toUInt8

def highByte (w : Int16) : UInt8 := (w.toUInt16 >>> 8).toUInt8

theorem lowByte_toNat (w : Int16) : (lowByte w).toNat = w.toUInt16.toNat % 256 := UInt16.toNat_toUInt8 _

theorem highByte_toNat (w : Int16) : (highByte w).toNat = w.toUInt16.toNat / 256 := by
  have hw := w.toUInt16.toNat_lt
  rw [highByte, UInt16.toNat_toUInt8, UInt16.toNat_shiftRight]
  show w.toUInt16.toNat >>> 8 % 2 ^ 8 = _
  rw [Nat.shiftRight_eq_div_pow]
  omega

theorem bytes_injective : Function.Injective bytes := by
  rintro ⟨data⟩ ⟨data'⟩ h
  exact congrArg ByteArray.mk (Array.toList_inj.mp h)

theorem length_bytes (data : ByteArray) : (bytes data).length = data.size := by
  cases data
  rfl

theorem byteAt_eq (data : ByteArray) (i : Nat) : byteAt data i = (bytes data)[i]?.getD 0 := by
  unfold byteAt
  split
  · rename_i h
    have hi : i < (bytes data).length := by rw [length_bytes]; exact h
    rw [List.getElem?_eq_getElem hi, Option.getD_some]
    rfl
  · rename_i h
    rw [List.getElem?_eq_none (by rw [length_bytes]; omega), Option.getD_none]

/-- The bit pattern of the word at a place is its low byte and 256 times its high byte. -/
theorem toNat_wordAt (data : ByteArray) (k : Nat) :
    (wordAt data k).toUInt16.toNat = (byteAt data (2 * k)).toNat + 256 * (byteAt data (2 * k + 1)).toNat := by
  have hlow := (byteAt data (2 * k)).toNat_lt
  have hhigh := (byteAt data (2 * k + 1)).toNat_lt
  have hshift : (byteAt data (2 * k + 1)).toNat <<< 8 % 2 ^ 16 = (byteAt data (2 * k + 1)).toNat <<< 8 := by
    rw [Nat.shiftLeft_eq]
    omega
  rw [wordAt, UInt16.toUInt16_toInt16, UInt16.toNat_or, UInt16.toNat_shiftLeft, UInt8.toNat_toUInt16,
    UInt8.toNat_toUInt16]
  show _ ||| (byteAt data (2 * k + 1)).toNat <<< 8 % 2 ^ 16 = _
  rw [hshift, Nat.or_comm, ← Nat.shiftLeft_add_eq_or_of_lt hlow, Nat.shiftLeft_eq]
  omega

theorem toInt_eq_bmod (w : Int16) : w.toInt = (w.toUInt16.toNat : Int).bmod UInt16.size :=
  BitVec.toInt_eq_toNat_bmod w.toBitVec

theorem lowByte_wordAt (data : ByteArray) (k : Nat) : lowByte (wordAt data k) = byteAt data (2 * k) := by
  have hlow := (byteAt data (2 * k)).toNat_lt
  apply UInt8.toNat_inj.mp
  rw [lowByte_toNat, toNat_wordAt]
  omega

theorem highByte_wordAt (data : ByteArray) (k : Nat) : highByte (wordAt data k) = byteAt data (2 * k + 1) := by
  have hlow := (byteAt data (2 * k)).toNat_lt
  apply UInt8.toNat_inj.mp
  rw [highByte_toNat, toNat_wordAt]
  omega

theorem wordAt_eq {data : ByteArray} {k : Nat} {w : Int16} (hlow : byteAt data (2 * k) = lowByte w)
    (hhigh : byteAt data (2 * k + 1) = highByte w) : wordAt data k = w := by
  have hpattern : (wordAt data k).toUInt16 = w.toUInt16 := by
    apply UInt16.toNat_inj.mp
    rw [toNat_wordAt, hlow, hhigh, lowByte_toNat, highByte_toNat]
    omega
  rw [← Int16.toInt16_toUInt16 (wordAt data k), hpattern, Int16.toInt16_toUInt16]

/-! ## The order of the words -/

/-- The lanes that a run of words fills from place `start` on. -/
def lanesFrom (f : Nat → Int16) (start : Nat) : Lanes := .ofFn fun j => f (start + j)

/-- The network that a run of words fills. -/
def ofWords (f : Nat → Int16) : Network :=
  { rows := .ofFn fun i => lanesFrom f (i * hiddenSize)
    hiddenBias := lanesFrom f (inputSize * hiddenSize)
    own := lanesFrom f ((inputSize + 1) * hiddenSize)
    other := lanesFrom f ((inputSize + 2) * hiddenSize)
    outputBias := f ((inputSize + 3) * hiddenSize) }

/-- All lanes of a network, in the order of the blob. -/
def vectors (net : Network) : List Lanes := net.rows.toList ++ [net.hiddenBias, net.own, net.other]

/-- The word at place `k` of a network: lane by lane, and the output bias after the last. -/
def word (net : Network) (k : Nat) : Int16 :=
  (net.vectors[k / hiddenSize]?.bind (·[k % hiddenSize]?)).getD net.outputBias

theorem length_vectors (net : Network) : net.vectors.length = inputSize + 3 := by simp [vectors]

theorem blobWords_eq : blobWords = (inputSize + 3) * hiddenSize + 1 := rfl

variable {f g : Nat → Int16}

theorem lanesFrom_congr {start : Nat} (h : ∀ j < hiddenSize, f (start + j) = g (start + j)) :
    lanesFrom f start = lanesFrom g start := by
  apply Vector.ext
  intro j hj
  simpa [lanesFrom] using h j hj

theorem ofWords_congr (h : ∀ k < blobWords, f k = g k) : ofWords f = ofWords g := by
  rw [blobWords_eq] at h
  have hlanes : ∀ i < inputSize + 3, lanesFrom f (i * hiddenSize) = lanesFrom g (i * hiddenSize) := by
    intro i hi
    refine lanesFrom_congr fun j hj => h _ (Nat.lt_succ_of_lt ?_)
    calc i * hiddenSize + j < i * hiddenSize + hiddenSize := Nat.add_lt_add_left hj _
      _ = (i + 1) * hiddenSize := (Nat.succ_mul i hiddenSize).symm
      _ ≤ (inputSize + 3) * hiddenSize := Nat.mul_le_mul_right _ hi
  have hrows : ∀ i : Fin inputSize, lanesFrom f (i * hiddenSize) = lanesFrom g (i * hiddenSize) := by
    intro i
    exact hlanes i (Nat.lt_add_right 3 i.isLt)
  simp only [ofWords, hrows, hlanes inputSize (by decide), hlanes (inputSize + 1) (by decide),
    hlanes (inputSize + 2) (by decide), h _ (Nat.lt_succ_self _)]

theorem lanesFrom_word {net : Network} {i : Nat} {x : Lanes} (h : net.vectors[i]? = some x) :
    lanesFrom net.word (i * hiddenSize) = x := by
  apply Vector.ext
  intro j hj
  have hdiv : (i * hiddenSize + j) / hiddenSize = i := by
    rw [Nat.mul_comm, Nat.mul_add_div (by decide), Nat.div_eq_of_lt hj, Nat.add_zero]
  have hmod : (i * hiddenSize + j) % hiddenSize = j := by
    rw [Nat.mul_comm, Nat.mul_add_mod, Nat.mod_eq_of_lt hj]
  have hlane : x[j]? = some x[j] := Vector.getElem?_eq_getElem hj
  simp only [lanesFrom, Vector.getElem_ofFn, word, hdiv, hmod, h, Option.bind_some, hlane, Option.getD_some]

/-- Every network is filled by its own words. -/
theorem ofWords_word (net : Network) : ofWords net.word = net := by
  have hrows : (Vector.ofFn fun i : Fin inputSize => lanesFrom net.word (i * hiddenSize)) = net.rows := by
    apply Vector.ext
    intro i hi
    rw [Vector.getElem_ofFn]
    apply lanesFrom_word
    rw [vectors, List.getElem?_append_left (by simpa using hi)]
    simp [hi]
  have hbias : lanesFrom net.word (inputSize * hiddenSize) = net.hiddenBias := lanesFrom_word (by simp [vectors])
  have hown : lanesFrom net.word ((inputSize + 1) * hiddenSize) = net.own := lanesFrom_word (by simp [vectors])
  have hother : lanesFrom net.word ((inputSize + 2) * hiddenSize) = net.other := lanesFrom_word (by simp [vectors])
  have hlast : net.word ((inputSize + 3) * hiddenSize) = net.outputBias := by
    rw [word, Nat.mul_div_cancel _ (by decide), List.getElem?_eq_none (Nat.le_of_eq net.length_vectors)]
    rfl
  simp only [ofWords, hrows, hbias, hown, hother, hlast]

/-! ## Reading and writing -/

theorem run_bind_of_run {α β : Type} {x : StateM Nat α} {k k' : Nat} {a : α} (h : x.run k = (a, k'))
    (next : α → StateM Nat β) : (x >>= next).run k = (next a).run k' := by
  rw [StateT.run_bind, h]
  rfl

/-- Of things that take `w` words each, `n` read one after the other are those at every `w`-th place, and
    the place reached is behind the last. -/
theorem run_ofFnM {α : Type} {next : StateM Nat α} {a : Nat → α} {w : Nat} (h : ∀ k, next.run k = (a k, k + w))
    (n k : Nat) : (Vector.ofFnM fun _ : Fin n => next).run k = (.ofFn fun i => a (k + i * w), k + n * w) := by
  induction n with
  | zero =>
    rw [Vector.ofFnM_zero, StateT.run_pure, Nat.zero_mul]
    exact congrArg (·, k) (Vector.ext fun i hi => absurd hi (Nat.not_lt_zero i))
  | succ n ih =>
    rw [Vector.ofFnM_succ, run_bind_of_run ih, run_bind_of_run (h _), StateT.run_pure, Vector.ofFn_succ, Nat.succ_mul,
      ← Nat.add_assoc]
    rfl

theorem run_nextWord (data : ByteArray) (k : Nat) : (nextWord data).run k = (wordAt data k, k + 1) := rfl

theorem run_nextLanes (data : ByteArray) (k : Nat) :
    (nextLanes data).run k = (lanesFrom (wordAt data) k, k + hiddenSize) := by
  have hrun := run_ofFnM (run_nextWord data) hiddenSize k
  simp only [Nat.mul_one] at hrun
  exact hrun

/-- The segments follow one another without a gap, and the last ends with the words of a blob. -/
theorem run_nextNetwork (data : ByteArray) : (nextNetwork data).run 0 = (ofWords (wordAt data), blobWords) := by
  have hrows := run_ofFnM (run_nextLanes data) inputSize 0
  simp only [Nat.zero_add] at hrows
  rw [nextNetwork, run_bind_of_run hrows, run_bind_of_run (run_nextLanes data _), run_bind_of_run (run_nextLanes data _),
    run_bind_of_run (run_nextLanes data _), run_bind_of_run (run_nextWord data _), StateT.run_pure, ← Nat.succ_mul,
    ← Nat.succ_mul, ← Nat.succ_mul, blobWords_eq]
  rfl

theorem ofBlob_eq_ofWords {data : ByteArray} (h : blobSize ≤ data.size) : ofBlob data = .ok (ofWords (wordAt data)) := by
  rw [ofBlob, if_neg (by omega), run_nextNetwork]

theorem bytes_push (data : ByteArray) (b : UInt8) : bytes (data.push b) = bytes data ++ [b] := by
  cases data
  exact Array.toList_push

/-- The bytes of a word in the order of the blob. -/
def wordBytes (w : Int16) : List UInt8 := [lowByte w, highByte w]

/-- All words of a network, in the order of the blob. -/
def words (net : Network) : List Int16 := net.vectors.flatMap Vector.toList ++ [net.outputBias]

theorem bytes_pushWord (data : ByteArray) (w : Int16) : bytes (pushWord data w) = bytes data ++ wordBytes w := by
  rw [pushWord, bytes_push, bytes_push, List.append_assoc]
  rfl

/-- Writing one thing after the other writes the bytes of all in order. -/
theorem bytes_foldl {α : Type} {push : ByteArray → α → ByteArray} {enc : α → List UInt8}
    (h : ∀ data a, bytes (push data a) = bytes data ++ enc a) (as : List α) (data : ByteArray) :
    bytes (as.foldl push data) = bytes data ++ as.flatMap enc := by
  induction as generalizing data with
  | nil => simp
  | cons a as ih => rw [List.foldl_cons, ih, h, List.flatMap_cons, List.append_assoc]

theorem bytes_pushLanes (data : ByteArray) (x : Lanes) :
    bytes (pushLanes data x) = bytes data ++ x.toList.flatMap wordBytes := by
  rw [pushLanes, ← Vector.foldl_toList]
  exact bytes_foldl bytes_pushWord x.toList data

theorem bytes_toBlob (net : Network) : bytes net.toBlob = net.words.flatMap wordBytes := by
  have hfold : net.toBlob = pushWord (net.vectors.foldl pushLanes (.emptyWithCapacity blobSize)) net.outputBias := by
    rw [toBlob, ← Vector.foldl_toList, vectors, List.foldl_append]
    rfl
  rw [hfold, bytes_pushWord, bytes_foldl bytes_pushLanes, words, List.flatMap_append, List.flatMap_assoc]
  rfl

theorem toList_ofFn_val {α : Type} (n : Nat) (a : Nat → α) :
    (Vector.ofFn fun i : Fin n => a i).toList = (List.range n).map a := by
  rw [Vector.toList_ofFn]
  apply List.ext_getElem
  · simp
  · intro i _ _
    simp

theorem toList_lanesFrom (start : Nat) : (lanesFrom f start).toList = (List.range hiddenSize).map fun j => f (start + j) :=
  toList_ofFn_val hiddenSize fun j => f (start + j)

theorem vectors_ofWords (f : Nat → Int16) :
    (ofWords f).vectors = (List.range (inputSize + 3)).map fun i => lanesFrom f (i * hiddenSize) := by
  have hrows : (ofWords f).rows.toList = (List.range inputSize).map fun i => lanesFrom f (i * hiddenSize) :=
    toList_ofFn_val inputSize fun i => lanesFrom f (i * hiddenSize)
  rw [vectors, hrows, List.range_add, List.map_append]
  rfl

/-- Runs of `n` words from place to place make one run. -/
theorem flatMap_runs (f : Nat → Int16) (m n : Nat) :
    ((List.range m).flatMap fun i => (List.range n).map fun j => f (i * n + j)) = (List.range (m * n)).map f := by
  induction m with
  | zero => simp
  | succ m ih =>
    rw [List.range_succ, List.flatMap_append, ih, Nat.succ_mul, List.range_add, List.map_append, List.map_map]
    simp

theorem words_ofWords (f : Nat → Int16) : (ofWords f).words = (List.range blobWords).map f := by
  have hlanes : (ofWords f).vectors.flatMap Vector.toList = (List.range ((inputSize + 3) * hiddenSize)).map f := by
    rw [vectors_ofWords, List.flatMap_map, ← flatMap_runs]
    simp only [toList_lanesFrom]
  rw [words, hlanes, blobWords_eq, List.range_add, List.map_append]
  rfl

/-- The byte at place `i` of a run of words. -/
def byteOf (f : Nat → Int16) (i : Nat) : UInt8 := if i % 2 = 0 then lowByte (f (i / 2)) else highByte (f (i / 2))

theorem flatMap_wordBytes (f : Nat → Int16) (n : Nat) :
    ((List.range n).map f).flatMap wordBytes = (List.range (2 * n)).map (byteOf f) := by
  induction n with
  | zero => rfl
  | succ n ih =>
    have hlow : byteOf f (2 * n) = lowByte (f n) := by
      rw [byteOf, if_pos (by omega), Nat.mul_div_cancel_left n (by decide)]
    have hhigh : byteOf f (2 * n + 1) = highByte (f n) := by
      rw [byteOf, if_neg (by omega), show (2 * n + 1) / 2 = n by omega]
    rw [List.range_succ, List.map_append, List.flatMap_append, ih, Nat.mul_succ, List.range_succ, List.range_succ]
    simp [wordBytes, hlow, hhigh]

/-- What is written for a run of words is its bytes in order. -/
theorem bytes_toBlob_ofWords (f : Nat → Int16) : bytes (ofWords f).toBlob = (List.range blobSize).map (byteOf f) := by
  rw [bytes_toBlob, words_ofWords, flatMap_wordBytes]
  rfl

theorem size_toBlob (net : Network) : net.toBlob.size = blobSize := by
  rw [← ofWords_word net, ← length_bytes, bytes_toBlob_ofWords, List.length_map, List.length_range]

theorem wordAt_toBlob_ofWords {k : Nat} (h : k < blobWords) : wordAt (ofWords f).toBlob k = f k := by
  have hbyte : ∀ i < blobSize, byteAt (ofWords f).toBlob i = byteOf f i := by
    intro i hi
    rw [byteAt_eq, bytes_toBlob_ofWords, List.getElem?_map, List.getElem?_range hi]
    rfl
  have hsize : blobSize = 2 * blobWords := rfl
  apply wordAt_eq
  · rw [hbyte _ (by omega), byteOf, if_pos (by omega), Nat.mul_div_cancel_left k (by decide)]
  · rw [hbyte _ (by omega), byteOf, if_neg (by omega), show (2 * k + 1) / 2 = k by omega]

/-- A network is read back from what is written for it. -/
theorem ofBlob_toBlob (net : Network) : ofBlob net.toBlob = .ok net := by
  have hwords : ∀ k < blobWords, wordAt net.toBlob k = net.word k := by
    intro k hk
    have hk' := wordAt_toBlob_ofWords (f := net.word) hk
    rwa [ofWords_word] at hk'
  rw [ofBlob_eq_ofWords (Nat.le_of_eq net.size_toBlob.symm), ofWords_congr hwords, ofWords_word]

theorem byteOf_wordAt (data : ByteArray) (i : Nat) : byteOf (wordAt data) i = byteAt data i := by
  unfold byteOf
  split
  · rw [lowByte_wordAt, show 2 * (i / 2) = i by omega]
  · rw [highByte_wordAt, show 2 * (i / 2) + 1 = i by omega]

theorem bytes_extract {data : ByteArray} {n : Nat} (h : n ≤ data.size) :
    bytes (data.extract 0 n) = (List.range n).map (byteAt data) := by
  have hlength : (bytes (data.extract 0 n)).length = n := by
    rw [length_bytes, ByteArray.size_extract]
    omega
  apply List.ext_getElem
  · rw [hlength, List.length_map, List.length_range]
  · intro i hi _
    have hin : i < (bytes data).length := by
      rw [length_bytes]
      omega
    rw [List.getElem_map, List.getElem_range, byteAt_eq, List.getElem?_eq_getElem hin]
    simp [bytes]

/-- What was read from a blob is written as the first bytes of it. -/
theorem toBlob_ofWords_wordAt {data : ByteArray} (h : blobSize ≤ data.size) :
    (ofWords (wordAt data)).toBlob = data.extract 0 blobSize := by
  apply bytes_injective
  rw [bytes_toBlob_ofWords, bytes_extract h]
  exact List.map_congr_left fun i _ => byteOf_wordAt data i

/-! ## The codec -/

/-- The word at place `k` of a blob, low byte first, both bytes being there. -/
def IsWord (data : ByteArray) (k : Nat) (w : Int16) : Prop :=
  ∃ low high : UInt8, data.data[2 * k]? = some low ∧ data.data[2 * k + 1]? = some high ∧
    w.toInt = ((low.toNat + 256 * high.toNat : Nat) : Int).bmod UInt16.size

/-- A run of words stands in the network: the rows one after the other, then the hidden bias, the
    output weights of the side to move, those of its opponent, and the output bias. -/
structure Holds (net : Network) (f : Nat → Int16) : Prop where
  rows : ∀ (i : Fin inputSize) (j : Fin hiddenSize), (net.rows.get i).get j = f (i * hiddenSize + j)
  hiddenBias : ∀ j : Fin hiddenSize, net.hiddenBias.get j = f (inputSize * hiddenSize + j)
  own : ∀ j : Fin hiddenSize, net.own.get j = f ((inputSize + 1) * hiddenSize + j)
  other : ∀ j : Fin hiddenSize, net.other.get j = f ((inputSize + 2) * hiddenSize + j)
  outputBias : net.outputBias = f ((inputSize + 3) * hiddenSize)

theorem get_lanesFrom (start : Nat) (j : Fin hiddenSize) : (lanesFrom f start).get j = f (start + j) :=
  Vector.getElem_ofFn j.isLt

theorem ofWords_holds (f : Nat → Int16) : (ofWords f).Holds f where
  rows i j := by
    have hrow : (ofWords f).rows.get i = lanesFrom f (i * hiddenSize) := Vector.getElem_ofFn i.isLt
    rw [hrow]
    exact get_lanesFrom _ j
  hiddenBias j := get_lanesFrom _ j
  own j := get_lanesFrom _ j
  other j := get_lanesFrom _ j
  outputBias := rfl

theorem getElem?_data {data : ByteArray} {i : Nat} (h : i < data.size) : data.data[i]? = some (byteAt data i) := by
  have hi : i < data.data.size := h
  rw [Array.getElem?_eq_getElem hi, byteAt, dif_pos h]
  rfl

theorem isWord_wordAt {data : ByteArray} (h : blobSize ≤ data.size) {k : Nat} (hk : k < blobWords) :
    IsWord data k (wordAt data k) := by
  have hsize : blobSize = 2 * blobWords := rfl
  refine ⟨_, _, getElem?_data (by omega), getElem?_data (by omega), ?_⟩
  rw [toInt_eq_bmod, toNat_wordAt]

theorem byteAt_eq_of_extract_eq {data data' : ByteArray} {n : Nat} (h : n ≤ data.size) (h' : n ≤ data'.size)
    (he : data'.extract 0 n = data.extract 0 n) : ∀ i < n, byteAt data' i = byteAt data i := by
  intro i hi
  have hbytes := congrArg bytes he
  rw [bytes_extract h, bytes_extract h'] at hbytes
  exact List.map_inj_left.mp hbytes i (List.mem_range.mpr hi)

/-- Only the first bytes of a blob count. -/
theorem ofBlob_eq_of_extract_eq {data data' : ByteArray} (h : blobSize ≤ data.size)
    (he : data'.extract 0 blobSize = data.extract 0 blobSize) : ofBlob data' = ofBlob data := by
  have hsizes := congrArg ByteArray.size he
  rw [ByteArray.size_extract, ByteArray.size_extract] at hsizes
  have h' : blobSize ≤ data'.size := by omega
  have hbyte := byteAt_eq_of_extract_eq h h' he
  have hsize : blobSize = 2 * blobWords := rfl
  rw [ofBlob_eq_ofWords h, ofBlob_eq_ofWords h']
  refine congrArg Except.ok (ofWords_congr fun k hk => wordAt_eq ?_ ?_)
  · rw [lowByte_wordAt, hbyte _ (by omega)]
  · rw [highByte_wordAt, hbyte _ (by omega)]

/-- Every network is written in one size and read back as it was. Every blob of that size or
    longer is read, its words taking the places of a network in order, and written again as
    the bytes that were read, on which alone the outcome depends. A shorter one is refused with
    both sizes. -/
theorem blob_codec (net : Network) (data : ByteArray) :
    net.toBlob.size = blobSize ∧ ofBlob net.toBlob = .ok net ∧
      (blobSize ≤ data.size →
        (∃ read f, ofBlob data = .ok read ∧ read.Holds f ∧ (∀ k < blobWords, IsWord data k (f k)) ∧
          read.toBlob = data.extract 0 blobSize) ∧
        ∀ data', data'.extract 0 blobSize = data.extract 0 blobSize → ofBlob data' = ofBlob data) ∧
      (data.size < blobSize → ofBlob data = .error (.truncated blobSize data.size)) := by
  refine ⟨net.size_toBlob, ofBlob_toBlob net, fun h => ⟨⟨_, wordAt data, ofBlob_eq_ofWords h, ofWords_holds _, ?_, ?_⟩, ?_⟩,
    fun h => if_pos h⟩
  · exact fun k hk => isWord_wordAt h hk
  · exact toBlob_ofWords_wordAt h
  · exact fun data' he => ofBlob_eq_of_extract_eq h he

/-- A blob with one byte too many and one without any, for a network with a negative output bias. -/
theorem blob_codec_long_and_empty :
    let net : Network := { Network.zero with outputBias := -2 }
    let data : ByteArray := net.toBlob ++ ⟨#[0xAB]⟩
    blobSize ≤ data.size ∧
      (∃ read f, ofBlob data = .ok read ∧ read.Holds f ∧ (∀ k < blobWords, IsWord data k (f k)) ∧
        read.toBlob = data.extract 0 blobSize) ∧
      ByteArray.empty.size < blobSize ∧ ofBlob .empty = .error (.truncated blobSize 0) := by
  intro net data
  have hlong : blobSize ≤ data.size := by
    rw [ByteArray.size_append, size_toBlob]
    exact Nat.le_add_right _ _
  have hshort : ByteArray.empty.size < blobSize := by decide
  exact ⟨hlong, ((blob_codec net data).2.2.1 hlong).1, hshort, (blob_codec net .empty).2.2.2 hshort⟩

example : blobSize = 1184258 := by decide

end Network

end ChessEval
