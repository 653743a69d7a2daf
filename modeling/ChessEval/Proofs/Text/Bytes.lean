/-
  ChessEval.Proofs.Text.Bytes — texts as the bytes of UTF-8, and where they may be cut.

  A character takes one to four bytes, and a text may only be cut where one ends.
  - `cut?_eq_some_iff`: cutting at a byte succeeds exactly if whole characters stand before it.
  - `bytes_of_ascii`, `slice?_of_ascii`: of ASCII text each character is one byte, so every cut
    within it succeeds and counts characters.
  - `all_bytes_lt_iff`: any other character has a byte that no ASCII character has.
-/

import Mathlib.Data.List.Basic

namespace ChessEval.Text

def IsAscii (c : Char) : Prop := c.toNat < 128

instance : DecidablePred IsAscii := fun c => inferInstanceAs (Decidable (c.toNat < 128))

/-- The bytes of some characters. -/
def bytes (cs : List Char) : List UInt8 := cs.flatMap String.utf8EncodeChar

/-- What stands before a byte and from it on; nothing if the byte is within a character or past the end. -/
def cut? : Nat → List Char → Option (List Char × List Char)
  | 0, cs => some ([], cs)
  | _ + 1, [] => none
  | n + 1, c :: cs =>
    if c.utf8Size ≤ n + 1 then (cut? (n + 1 - c.utf8Size) cs).map fun (before, after) => (c :: before, after) else none

/-- What stands from one byte to another. -/
def slice? (first last : Nat) (cs : List Char) : Option (List Char) := do
  let (before, _) ← cut? last cs
  let (_, part) ← cut? first before
  return part

theorem bytes_cons (c : Char) (cs : List Char) : bytes (c :: cs) = String.utf8EncodeChar c ++ bytes cs := rfl

theorem length_bytes_cons (c : Char) (cs : List Char) : (bytes (c :: cs)).length = c.utf8Size + (bytes cs).length := by
  rw [bytes_cons, List.length_append, String.length_utf8EncodeChar]

theorem length_bytes_toList (text : String) : (bytes text.toList).length = text.utf8ByteSize :=
  calc (bytes text.toList).length
      = text.toList.utf8Encode.size := List.size_toByteArray.symm
    _ = text.utf8ByteSize := by rw [String.utf8Encode_toList, String.size_toByteArray]

theorem bytes_inj {cs ds : List Char} : bytes cs = bytes ds ↔ cs = ds := by
  constructor
  · intro h
    have htext : (String.ofList cs).toByteArray = (String.ofList ds).toByteArray := by
      rw [String.toByteArray_ofList, String.toByteArray_ofList]
      exact congrArg List.toByteArray h
    exact String.ofList_injective (String.toByteArray_inj.mp htext)
  · exact congrArg bytes

theorem length_bytes_eq_zero_iff {cs : List Char} : (bytes cs).length = 0 ↔ cs = [] := by
  cases cs with
  | nil => exact ⟨fun _ => rfl, fun _ => rfl⟩
  | cons c cs =>
    have hpos : 0 < c.utf8Size := c.utf8Size_pos
    rw [length_bytes_cons]
    exact ⟨fun h => by omega, fun h => nomatch h⟩

theorem cut?_zero_eq_some_iff {cs before after : List Char} :
    cut? 0 cs = some (before, after) ↔ cs = before ++ after ∧ (bytes before).length = 0 := by
  have hzero : cut? 0 cs = some ([], cs) := by cases cs <;> rfl
  rw [hzero, length_bytes_eq_zero_iff]
  constructor
  · intro h
    cases h
    exact ⟨rfl, rfl⟩
  · rintro ⟨h, rfl⟩
    exact congrArg (fun cs => some ([], cs)) h

theorem cut?_eq_some_iff {n : Nat} {cs before after : List Char} :
    cut? n cs = some (before, after) ↔ cs = before ++ after ∧ (bytes before).length = n := by
  induction cs generalizing n before with
  | nil =>
    cases n with
    | zero => exact cut?_zero_eq_some_iff
    | succ n =>
      constructor
      · exact fun h => nomatch h
      · rintro ⟨h, hlength⟩
        obtain ⟨rfl, -⟩ := List.nil_eq_append_iff.mp h
        cases hlength
  | cons c cs ih =>
    cases n with
    | zero => exact cut?_zero_eq_some_iff
    | succ n =>
      unfold cut?
      constructor
      · intro h
        split at h
        · rename_i hle
          obtain ⟨⟨before', after'⟩, hcut, h⟩ := Option.map_eq_some_iff.mp h
          cases h
          obtain ⟨rfl, hlength⟩ := ih.mp hcut
          rw [length_bytes_cons, hlength]
          exact ⟨rfl, by omega⟩
        · cases h
      · rintro ⟨h, hlength⟩
        cases before with
        | nil => cases hlength
        | cons d before =>
          injection h with hc hcs
          subst hc
          rw [length_bytes_cons] at hlength
          rw [if_pos (by omega), ih.mpr ⟨hcs, by omega⟩]
          rfl

/-! ## ASCII -/

theorem utf8EncodeChar_of_ascii {c : Char} (h : IsAscii c) : String.utf8EncodeChar c = [.ofNat c.toNat] :=
  if_pos (Nat.le_of_lt_succ h)

theorem le_ofNat {n : Nat} (hlow : 128 ≤ n) (hhigh : n < 256) : 128 ≤ UInt8.ofNat n := by
  rw [UInt8.le_iff_toNat_le, UInt8.toNat_ofNat_of_lt' hhigh]
  exact hlow

/-- The first byte of several says how many there are in its upper bits. -/
theorem utf8EncodeChar_of_not_ascii {c : Char} (h : ¬ IsAscii c) :
    ∃ b b' bs, String.utf8EncodeChar c = b :: b' :: bs ∧ 128 ≤ b := by
  have hc : ¬ c.val.toNat ≤ 127 := fun hle => h (Nat.lt_succ_of_le hle)
  unfold String.utf8EncodeChar
  simp only [hc, if_false]
  split
  · exact ⟨_, _, _, rfl, le_ofNat (by omega) (by omega)⟩
  · split
    · exact ⟨_, _, _, rfl, le_ofNat (by omega) (by omega)⟩
    · exact ⟨_, _, _, rfl, le_ofNat (by omega) (by omega)⟩

theorem bytes_of_ascii {cs : List Char} (h : ∀ c ∈ cs, IsAscii c) : bytes cs = cs.map fun c => .ofNat c.toNat := by
  induction cs with
  | nil => rfl
  | cons c cs ih =>
    obtain ⟨hc, hcs⟩ := List.forall_mem_cons.mp h
    rw [bytes_cons, utf8EncodeChar_of_ascii hc, ih hcs]
    rfl

theorem length_bytes_of_ascii {cs : List Char} (h : ∀ c ∈ cs, IsAscii c) : (bytes cs).length = cs.length := by
  rw [bytes_of_ascii h, List.length_map]

theorem all_bytes_lt_iff {cs : List Char} : (∀ b ∈ bytes cs, b < 128) ↔ ∀ c ∈ cs, IsAscii c := by
  constructor
  · intro h c hc
    by_contra hascii
    obtain ⟨b, b', bs, hbytes, hb⟩ := utf8EncodeChar_of_not_ascii hascii
    have hmem : b ∈ bytes cs := List.mem_flatMap.mpr ⟨c, hc, hbytes ▸ List.mem_cons_self⟩
    exact absurd (h b hmem) (UInt8.not_lt.mpr hb)
  · intro h b hb
    rw [bytes_of_ascii h] at hb
    obtain ⟨c, hc, rfl⟩ := List.mem_map.mp hb
    have hascii : c.toNat < 128 := h c hc
    rw [UInt8.lt_iff_toNat_lt, UInt8.toNat_ofNat']
    exact Nat.lt_of_le_of_lt (Nat.mod_le _ _) hascii

theorem cut?_of_ascii {n : Nat} {cs : List Char} (h : ∀ c ∈ cs, IsAscii c) (hn : n ≤ cs.length) :
    cut? n cs = some (cs.take n, cs.drop n) := by
  have hbefore : ∀ c ∈ cs.take n, IsAscii c := fun c hc => h c (List.mem_of_mem_take hc)
  refine cut?_eq_some_iff.mpr ⟨(List.take_append_drop n cs).symm, ?_⟩
  rw [length_bytes_of_ascii hbefore, List.length_take, Nat.min_eq_left hn]

theorem slice?_of_ascii {first last : Nat} {cs : List Char} (h : ∀ c ∈ cs, IsAscii c) (hfirst : first ≤ last)
    (hlast : last ≤ cs.length) : slice? first last cs = some ((cs.take last).drop first) := by
  have hbefore : ∀ c ∈ cs.take last, IsAscii c := fun c hc => h c (List.mem_of_mem_take hc)
  have hlength : first ≤ (cs.take last).length := by
    rw [List.length_take, Nat.min_eq_left hlast]
    exact hfirst
  unfold slice?
  rw [cut?_of_ascii h hlast]
  show (cut? first (cs.take last)).bind _ = _
  rw [cut?_of_ascii hbefore hlength]
  rfl

end ChessEval.Text
