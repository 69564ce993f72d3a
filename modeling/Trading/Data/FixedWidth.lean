import Mathlib.Algebra.Group.Nat.Defs
import Mathlib.Data.Char
import Mathlib.Data.List.Lex
import Mathlib.Data.Prod.Lex
import Mathlib.Order.Fin.Basic

/-!
# Numbers of a fixed width

With leading zeros numbers compare as their texts do, and so do texts that begin with
such columns. A reader takes a column off the front of a text.
-/
namespace Data

theorem append_lt_append {α : Type} [LinearOrder α] {xs ys : List α}
    (hlength : xs.length = ys.length) (h : xs < ys) (xs' ys' : List α) :
    xs ++ xs' < ys ++ ys' := by
  induction h with
  | nil => cases hlength
  | cons _ ih => exact List.Lex.cons (ih (Nat.succ.inj hlength))
  | rel hhead => exact List.Lex.rel hhead

/-- The last `w` decimal digits of `n`. -/
def padded : Nat → Nat → List Char
  | 0, _ => []
  | w + 1, n => padded w (n / 10) ++ [Nat.digitChar (n % 10)]

@[simp] theorem length_padded (w n : Nat) : (padded w n).length = w := by
  induction w generalizing n with
  | zero => rfl
  | succ w ih => rw [padded, List.length_append, ih, List.length_singleton]

theorem digitChar_lt {a b : Nat} (h : a < b) (hb : b < 10) :
    Nat.digitChar a < Nat.digitChar b := by
  have hall : ∀ x y : Fin 10, x < y → Nat.digitChar x < Nat.digitChar y := by decide
  exact hall ⟨a, h.trans hb⟩ ⟨b, hb⟩ h

theorem padded_lt {w n m : Nat} (h : n < m) (hm : m < 10 ^ w) : padded w n < padded w m := by
  induction w generalizing n m with
  | zero => omega
  | succ w ih =>
    rw [Nat.pow_succ] at hm
    rw [padded, padded]
    by_cases hlead : n / 10 = m / 10
    · have hlast : Nat.digitChar (n % 10) < Nat.digitChar (m % 10) :=
        digitChar_lt (by omega) (by omega)
      rw [hlead]
      exact List.Lex.append_left _ (List.Lex.rel hlast) _
    · have hlength : (padded w (n / 10)).length = (padded w (m / 10)).length :=
        (length_padded _ _).trans (length_padded _ _).symm
      exact append_lt_append hlength (ih (by omega) (by omega)) _ _

/-- A number in front of texts that keep an order keeps the lexicographic order. -/
theorem strictMono_padded_append {n w : Nat} (h : n ≤ 10 ^ w) (separator : List Char)
    {β : Type} [Preorder β] {rest : β → List Char} (hrest : StrictMono rest) :
    StrictMono fun p : Fin n ×ₗ β =>
      padded w (ofLex p).1 ++ (separator ++ rest (ofLex p).2) := by
  intro p q hpq
  cases Prod.Lex.lt_iff.mp hpq with
  | inl hfirst =>
    have hlt : padded w (ofLex p).1 < padded w (ofLex q).1 :=
      padded_lt hfirst ((ofLex q).1.isLt.trans_le h)
    exact append_lt_append ((length_padded _ _).trans (length_padded _ _).symm) hlt _ _
  | inr hsecond =>
    obtain ⟨hsame, hlt⟩ := hsecond
    dsimp only
    rw [hsame]
    exact List.Lex.append_left _ (List.Lex.append_left _ (hrest hlt) _) _

def digit? (c : Char) : Option Nat :=
  if '0' ≤ c ∧ c ≤ '9' then some (c.toNat - '0'.toNat) else none

/-- Take a number of `w` digits off the front, `n` being what its leading digits stand for. -/
def readNumber : Nat → Nat → List Char → Option (Nat × List Char)
  | 0, n, cs => some (n, cs)
  | _ + 1, _, [] => none
  | w + 1, n, c :: cs => (digit? c).bind fun d => readNumber w (10 * n + d) cs

/-- Take a text off the front. -/
def readText : List Char → List Char → Option (List Char)
  | [], cs => some cs
  | _ :: _, [] => none
  | t :: ts, c :: cs => if t = c then readText ts cs else none

theorem readText_append (ts cs : List Char) : readText ts (ts ++ cs) = some cs := by
  induction ts with
  | nil => rfl
  | cons t ts ih => rw [List.cons_append, readText, if_pos rfl, ih]

theorem digit?_digitChar {d : Nat} (h : d < 10) : digit? (Nat.digitChar d) = some d := by
  have hall : ∀ x : Fin 10, digit? (Nat.digitChar x) = some (x : Nat) := by decide
  exact hall ⟨d, h⟩

/-- Digits go behind those that were read before. -/
theorem readNumber_append (w k n m : Nat) (cs : List Char) :
    readNumber (w + k) n (padded w m ++ cs) = readNumber k (10 ^ w * n + m % 10 ^ w) cs := by
  induction w generalizing k m cs with
  | zero => simp [padded, Nat.mod_one]
  | succ w ih =>
    have hvalue : 10 * (10 ^ w * n + m / 10 % 10 ^ w) + m % 10 =
        10 ^ (w + 1) * n + m % 10 ^ (w + 1) := by
      rw [Nat.pow_succ', Nat.mod_mul, Nat.mul_assoc]
      omega
    rw [padded, List.append_assoc, Nat.succ_add_eq_add_succ, ih, List.singleton_append, readNumber,
      digit?_digitChar (Nat.mod_lt m (by decide)), Option.bind_some, hvalue]

/-- Take a number below `n` off the front. -/
def readColumn (n w : Nat) (cs : List Char) : Option (Fin n × List Char) :=
  (readNumber w 0 cs).bind fun r => if h : r.1 < n then some (⟨r.1, h⟩, r.2) else none

theorem readNumber_padded {w n : Nat} (h : n < 10 ^ w) (cs : List Char) :
    readNumber w 0 (padded w n ++ cs) = some (n, cs) := by
  have happend := readNumber_append w 0 0 n cs
  rwa [Nat.mul_zero, Nat.zero_add, Nat.mod_eq_of_lt h] at happend

theorem readColumn_padded {n w : Nat} (h : n ≤ 10 ^ w) (a : Fin n) (cs : List Char) :
    readColumn n w (padded w a ++ cs) = some (a, cs) := by
  rw [readColumn, readNumber_padded (a.isLt.trans_le h), Option.bind_some, dif_pos a.isLt]

end Data
