import BlockHeap.Memory.Basic
import Mathlib.Tactic

/-!
# Reading what was written

The laws `Memory.read_fill`, `Memory.read_tabulate` and `Memory.read_copy` say what each write does
to every byte. A word depends only on its own bytes, so a write elsewhere leaves it alone.
-/

namespace BlockHeap
namespace Region

theorem read_low_high (r : Region) (height a : Nat) :
    r.read (height + 1) a =
      if a.testBit height then r.high.read height a else r.low.read height a := by
  cases r <;> simp [read, low, high]

theorem read_join (l r : Region) (height a : Nat) :
    (join l r).read (height + 1) a =
      if a.testBit height then r.read height a else l.read height a := by
  cases l <;> cases r <;> simp only [join, read, Nat.add_sub_cancel]
  split <;> simp_all [read]

/-- An address in a region's place lies in the half that its next bit names. -/
theorem half_of_div {a p height : Nat} (h : a / 2 ^ (height + 1) = p) :
    a / 2 ^ height = if a.testBit height then 2 * p + 1 else 2 * p := by
  rw [Nat.pow_succ, ← Nat.div_div_eq_div_mul] at h
  rw [Nat.testBit_eq_decide_div_mod_eq]
  simp only [decide_eq_true_eq]
  split <;> omega

theorem mem_of_div {a p n : Nat} (h : a / 2 ^ n = p) : p * 2 ^ n ≤ a ∧ a < (p + 1) * 2 ^ n := by
  subst h
  exact ⟨Nat.div_mul_le_self a _, by
    rw [Nat.mul_comm]; exact Nat.lt_mul_div_succ a (Nat.two_pow_pos n)⟩

/-- A region in front of an interval, or behind it, holds none of its addresses. -/
theorem not_mem_of_outside {a p n lo hi : Nat} (h : a / 2 ^ n = p)
    (ho : p < lo >>> n ∨ (hi - 1) >>> n < p) : ¬(lo ≤ a ∧ a < hi) := by
  simp only [Nat.shiftRight_eq_div_pow] at ho
  intro ⟨hlo, hhi⟩
  have h1 : lo / 2 ^ n ≤ a / 2 ^ n := Nat.div_le_div_right hlo
  have h2 : a / 2 ^ n ≤ (hi - 1) / 2 ^ n := Nat.div_le_div_right (by omega)
  omega

theorem read_tabulate (lo hi : Nat) (f : Nat → UInt8) (height p : Nat) (r : Region) (a : Nat)
    (h : a / 2 ^ height = p) :
    (tabulate lo hi f height p r).read height a =
      if lo ≤ a ∧ a < hi then f a else r.read height a := by
  induction height generalizing p r with
  | zero =>
    have : a = p := by simpa using h
    subst this
    rw [tabulate]
    split <;> rfl
  | succ height ih =>
    rw [tabulate]
    split
    next ho => rw [if_neg (not_mem_of_outside h ho)]
    next =>
      have hh := half_of_div h
      rw [read_join, read_low_high]
      by_cases hb : a.testBit height
      · rw [if_pos hb, if_pos hb]
        exact ih _ _ (by rw [hh, if_pos hb])
      · rw [if_neg hb, if_neg hb]
        exact ih _ _ (by rw [hh, if_neg hb])

theorem read_fill (lo hi : Nat) (byte : UInt8) (height p : Nat) (r : Region) (a : Nat)
    (h : a / 2 ^ height = p) :
    (fill lo hi byte height p r).read height a =
      if lo ≤ a ∧ a < hi then byte else r.read height a := by
  induction height generalizing p r with
  | zero =>
    have : a = p := by simpa using h
    subst this
    rw [fill]
    split <;> rfl
  | succ height ih =>
    have hm := mem_of_div h
    rw [fill]
    split
    next ho => rw [if_neg (not_mem_of_outside h ho)]
    next =>
      simp only [Nat.shiftLeft_eq]
      split
      · rw [if_pos (by omega), read]
      · have hh := half_of_div h
        rw [read_join, read_low_high]
        by_cases hb : a.testBit height
        · rw [if_pos hb, if_pos hb]
          exact ih _ _ (by rw [hh, if_pos hb])
        · rw [if_neg hb, if_neg hb]
          exact ih _ _ (by rw [hh, if_neg hb])

end Region

namespace Memory

theorem height_raise (n : Nat) (m : Memory) : (raise n m).height = m.height + n := by
  induction n generalizing m with
  | zero => rfl
  | succ n ih => rw [raise, ih]; simp only; omega

theorem read_raise (n : Nat) (m : Memory) (a : Nat) : (raise n m).read a = m.read a := by
  induction n generalizing m with
  | zero => rfl
  | succ n ih =>
    rw [raise, ih]
    simp only [read, Region.read, Nat.shiftRight_eq_div_pow, Nat.add_sub_cancel,
      Nat.div_eq_zero_iff, Nat.pow_succ]
    have hp := Nat.two_pow_pos m.height
    by_cases h : a < 2 ^ m.height
    · have hb : a.testBit m.height = false := Nat.testBit_lt_two_pow h
      rw [if_pos (Or.inr (by omega)), if_pos (Or.inr h), hb]
      rfl
    · rw [if_neg (show ¬(2 ^ m.height = 0 ∨ a < 2 ^ m.height) by omega)]
      split
      next h' =>
        have hb : a.testBit m.height = true := by
          rw [Nat.testBit_eq_decide_div_mod_eq, decide_eq_true_eq,
            show a / 2 ^ m.height = 1 by
              exact Nat.div_eq_of_lt_le (by omega) (by omega)]
        rw [if_pos hb]
      · rfl

theorem read_cover (m : Memory) (hi a : Nat) : (m.cover hi).read a = m.read a :=
  read_raise _ _ _

theorem div_cover {m : Memory} {hi a : Nat} (h : a < hi) : a / 2 ^ (m.cover hi).height = 0 := by
  rw [cover, height_raise]
  refine Nat.div_eq_of_lt (Nat.lt_of_lt_of_le (Nat.lt_trans h Nat.lt_log2_self) ?_)
  exact Nat.pow_le_pow_right (by omega) (by omega)

theorem read_fill (m : Memory) (lo hi : Nat) (byte : UInt8) (a : Nat) :
    (m.fill lo hi byte).read a = if lo ≤ a ∧ a < hi then byte else m.read a := by
  rw [← read_cover m hi a]
  simp only [fill, read, Nat.shiftRight_eq_div_pow]
  by_cases h : a / 2 ^ (m.cover hi).height = 0
  · rw [if_pos h, if_pos h, Region.read_fill _ _ _ _ _ _ _ h]
  · rw [if_neg h, if_neg h, if_neg fun ha => h (div_cover ha.2)]

theorem read_tabulate (m : Memory) (lo hi : Nat) (f : Nat → UInt8) (a : Nat) :
    (m.tabulate lo hi f).read a = if lo ≤ a ∧ a < hi then f a else m.read a := by
  rw [← read_cover m hi a]
  simp only [tabulate, read, Nat.shiftRight_eq_div_pow]
  by_cases h : a / 2 ^ (m.cover hi).height = 0
  · rw [if_pos h, if_pos h, Region.read_tabulate _ _ _ _ _ _ _ h]
  · rw [if_neg h, if_neg h, if_neg fun ha => h (div_cover ha.2)]

theorem read_copy (m : Memory) (source target count a : Nat) :
    (m.copy source target count).read a =
      if target ≤ a ∧ a < target + count then m.read (a - target + source) else m.read a :=
  read_tabulate _ _ _ _ _

theorem read_setWord (m : Memory) (a value b : Nat) :
    (m.setWord a value).read b =
      if a ≤ b ∧ b < a + wordSize then UInt8.ofNat (value >>> (8 * (b - a))) else m.read b :=
  read_tabulate _ _ _ _ _

theorem number_lt (m : Memory) (a count : Nat) : m.number a count < 256 ^ count := by
  induction count generalizing a with
  | zero => simp [number]
  | succ count ih =>
    have := ih (a + 1)
    have := (m.read a).toNat_lt
    rw [number, Nat.pow_succ]
    omega

theorem number_congr {m n : Memory} {a count : Nat}
    (h : ∀ b, a ≤ b → b < a + count → m.read b = n.read b) :
    m.number a count = n.number a count := by
  induction count generalizing a with
  | zero => rfl
  | succ count ih =>
    rw [number, number, h a (by omega) (by omega), ih fun b hb hb' => h b (by omega) (by omega)]

theorem number_eq_of_bytes {m : Memory} {a count value : Nat}
    (h : ∀ i, i < count → m.read (a + i) = UInt8.ofNat (value >>> (8 * i))) :
    m.number a count = value % 256 ^ count := by
  induction count generalizing a value with
  | zero => simp [number, Nat.mod_one]
  | succ count ih =>
    have h0 := h 0 (by omega)
    have hrest : m.number (a + 1) count = value / 256 % 256 ^ count := ih fun i hi => by
      rw [show a + 1 + i = a + (i + 1) by omega, h (i + 1) (by omega), Nat.shiftRight_eq_div_pow,
        Nat.shiftRight_eq_div_pow, Nat.div_div_eq_div_mul, show 8 * (i + 1) = 8 + 8 * i by omega,
        Nat.pow_add]
    simp only [Nat.add_zero, Nat.mul_zero, Nat.shiftRight_zero] at h0
    rw [number, hrest, h0, UInt8.toNat_ofNat', show 256 ^ (count + 1) = 256 * 256 ^ count by
      rw [Nat.pow_succ, Nat.mul_comm], Nat.mod_mul]

theorem word_lt (m : Memory) (a : Nat) : m.word a < Word.limit :=
  number_lt m a wordSize

theorem word_setWord (m : Memory) (a value : Nat) :
    (m.setWord a value).word a = value % Word.limit :=
  number_eq_of_bytes fun i hi => by
    rw [read_setWord, if_pos ⟨by omega, by omega⟩, Nat.add_sub_cancel_left]

theorem word_congr {m n : Memory} {a : Nat}
    (h : ∀ b, a ≤ b → b < a + wordSize → m.read b = n.read b) : m.word a = n.word a :=
  number_congr h

theorem word_setWord_of_disjoint {m : Memory} {a b value : Nat}
    (h : b + wordSize ≤ a ∨ a + wordSize ≤ b) : (m.setWord a value).word b = m.word b :=
  word_congr fun c hc hc' => by rw [read_setWord, if_neg (by omega)]

end Memory
end BlockHeap
