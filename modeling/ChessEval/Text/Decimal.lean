/-
  ChessEval.Text.Decimal — decimal numerals.

  `digits` writes a natural number without leading zeros. Reading takes ASCII digits
  only, leading zeros allowed: `unsigned?` after an optional plus sign, `signed?`
  after an optional sign of either kind, both within a word of so many bits.
  - `natural?_digits`: what is written is read back.
-/

namespace ChessEval.Text

/-- The digit of a number below ten. -/
def digit (n : Nat) : Char := Char.ofNat (48 + n)

def digits (n : Nat) : List Char := if n < 10 then [digit n] else digits (n / 10) ++ [digit (n % 10)]

def digitsValue (cs : List Char) : Nat := cs.foldl (fun n c => n * 10 + (c.toNat - 48)) 0

/-- The value of a nonempty run of digits. -/
def natural? (cs : List Char) : Option Nat :=
  if !cs.isEmpty && cs.all Char.isDigit then some (digitsValue cs) else none

/-- The number if it fits in a word of `bits` bits without sign. -/
def unsigned? (bits : Nat) (cs : List Char) : Option Nat :=
  let body := match cs with
    | '+' :: r => r
    | _ => cs
  (natural? body).filter (· < 1 <<< bits)

/-- The number if it fits in a word of `bits` bits with sign. -/
def signed? (bits : Nat) (cs : List Char) : Option Int :=
  let value : Option Int := match cs with
    | '+' :: r => (natural? r).map Int.ofNat
    | '-' :: r => (natural? r).map fun n => -(n : Int)
    | _ => (natural? cs).map Int.ofNat
  let half : Nat := 1 <<< (bits - 1)
  value.filter fun n => -(half : Int) ≤ n ∧ n < half

theorem digit_isDigit {n : Nat} (h : n < 10) : (digit n).isDigit = true ∧ (digit n).toNat - 48 = n := by
  revert n; decide

theorem digits_ne_nil (n : Nat) : digits n ≠ [] := by
  rw [digits]; split <;> simp

theorem digits_all (n : Nat) : (digits n).all Char.isDigit = true := by
  fun_induction digits n with
  | case1 n h => simp [(digit_isDigit h).1]
  | case2 n h ih => simp [ih, (digit_isDigit (Nat.mod_lt n (by omega))).1]

theorem digitsValue_digits (n : Nat) : digitsValue (digits n) = n := by
  fun_induction digits n with
  | case1 n h => simp [digitsValue, (digit_isDigit h).2]
  | case2 n h ih =>
    simp only [digitsValue, List.foldl_append, List.foldl_cons, List.foldl_nil] at ih ⊢
    rw [ih, (digit_isDigit (Nat.mod_lt n (by omega))).2]
    omega

theorem natural?_digits (n : Nat) : natural? (digits n) = some n := by
  simp [natural?, digits_ne_nil, digits_all, digitsValue_digits]

end ChessEval.Text
