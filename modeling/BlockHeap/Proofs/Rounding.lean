import BlockHeap.Proofs.Exact
import Mathlib.Order.Bounds.Basic

/-!
# Rounding by masks

Clearing the low bits of a two's complement rounds down, for values of either sign, and never leaves
the type. Rounding up does the same to a sum, which is checked before the one that is too much is
taken away from it. So it faults where its answer is too large for the type, and also at the greatest
multiple of the unit that the type has, which is its own answer; at every other value it is exact.
The capacities that a reservation can round to whole pages follow.
-/

namespace BlockHeap

/-- Clearing the low bits of a number rounds it down. -/
lemma and_highBits {x n bits : Nat} (hx : x < 2 ^ bits) (hn : n ≤ bits) :
    x &&& (2 ^ bits - 1 - (2 ^ n - 1)) = x / 2 ^ n * 2 ^ n := by
  have hmask : 2 ^ bits - 1 - (2 ^ n - 1) = (2 ^ (bits - n) - 1) <<< n := by
    have hpos := Nat.two_pow_pos n
    rw [Nat.shiftLeft_eq, Nat.sub_mul, ← Nat.pow_add, Nat.sub_add_cancel hn]
    omega
  have hhigh : x >>> n < 2 ^ (bits - n) := by
    rw [Nat.shiftRight_eq_div_pow]
    refine Nat.div_lt_of_lt_mul ?_
    rwa [← Nat.pow_add, Nat.add_sub_cancel' hn]
  calc x &&& (2 ^ bits - 1 - (2 ^ n - 1))
      = (x >>> n &&& (2 ^ (bits - n) - 1)) <<< n := by
        rw [hmask]
        apply Nat.eq_of_testBit_eq
        intro i
        rw [Nat.testBit_and, Nat.testBit_shiftLeft, Nat.testBit_shiftLeft, Nat.testBit_and,
          Nat.testBit_shiftRight]
        by_cases hi : n ≤ i <;> simp [hi]
    _ = x / 2 ^ n * 2 ^ n := by
        rw [Nat.and_two_pow_sub_one_of_lt_two_pow hhigh, Nat.shiftLeft_eq,
          Nat.shiftRight_eq_div_pow]

section Multiples

variable {v w : Int}

/-- The multiples of `unit` that are not below `value`. -/
def multiplesFrom (unit value : Int) : Set Int :=
  {m | unit ∣ m ∧ value ≤ m}

/-- The multiples of `unit` that are not above `value`. -/
def multiplesTo (unit value : Int) : Set Int :=
  {m | unit ∣ m ∧ m ≤ value}

/-- Between two multiples of a unit there is room for the unit. -/
lemma add_le_of_dvd {m b : Int} (hm : w ∣ m) (hb : w ∣ b) (hlt : m < b) : m + w ≤ b := by
  have hle := Int.le_of_dvd (by omega) (Int.dvd_sub hb hm)
  omega

lemma isGreatest_floor (v : Int) (hw : 0 < w) : IsGreatest (multiplesTo w v) (v / w * w) := by
  refine ⟨⟨Int.dvd_mul_left _ _, Int.ediv_mul_le v hw.ne'⟩, ?_⟩
  rintro _ ⟨⟨q, rfl⟩, hle⟩
  rw [Int.mul_comm w q] at hle ⊢
  exact Int.mul_le_mul_of_nonneg_right ((Int.le_ediv_iff_mul_le hw).mpr hle) hw.le

lemma isLeast_ceil (v : Int) (hw : 0 < w) : IsLeast (multiplesFrom w v) ((v + w - 1) / w * w) := by
  have hnext := Int.lt_ediv_add_one_mul_self (v + w - 1) hw
  have hdown := Int.ediv_mul_le (v + w - 1) hw.ne'
  rw [Int.add_mul, Int.one_mul] at hnext
  refine ⟨⟨Int.dvd_mul_left _ _, by omega⟩, fun m hm => ?_⟩
  by_contra hlt
  have hroom := add_le_of_dvd hm.1 (Int.dvd_mul_left _ _) (Int.lt_of_not_ge hlt)
  have hle := hm.2
  omega

/-- A multiple is rounded to itself. -/
lemma isLeast_of_dvd (hv : w ∣ v) : IsLeast (multiplesFrom w v) v :=
  ⟨⟨hv, Int.le_refl v⟩, fun _ hm => hm.2⟩

end Multiples

namespace IntKind

variable {k : IntKind} {v : Int} {n : Nat}

/-- A type has its values from 0 on, or as many below 0 as from there on. -/
lemma range_cases (k : IntKind) :
    (k.least = 0 ∧ k.bound = 2 ^ k.bits) ∨
      (k.least = -k.bound ∧ k.bound = 2 ^ (k.bits - 1)) := by
  unfold least bound
  rw [Nat.one_shiftLeft, Nat.one_shiftLeft]
  cases k.signed <;> simp

/-- No type has more values below 0 than from there on. -/
lemma least_le (k : IntKind) : k.least ≤ 0 ∧ -k.bound ≤ k.least := by
  rcases k.range_cases with ⟨hleast, hbound⟩ | ⟨hleast, hbound⟩
  · have hpos : (0 : Int) < 2 ^ k.bits := Int.pow_pos (by decide)
    exact ⟨by omega, by omega⟩
  · have hpos : (0 : Int) < 2 ^ (k.bits - 1) := Int.pow_pos (by decide)
    exact ⟨by omega, by omega⟩

lemma contains_pred (hw : k.Contains (2 ^ n)) : k.Contains (2 ^ n - 1) := by
  have hpos : (0 : Int) < 2 ^ n := Int.pow_pos (by decide)
  have hle := k.least_le.1
  exact ⟨by omega, Int.lt_trans (by omega) hw.2⟩

/-- A power of two that a type has divides its bounds and the number of its values. -/
lemma dvd_range (hw : k.Contains (2 ^ n)) :
    (2 ^ n : Int) ∣ k.bound ∧ (2 ^ n : Int) ∣ k.least ∧ k.bound - k.least = 2 ^ k.bits ∧
      n < k.bits := by
  have hlt : ∀ e : Nat, (2 ^ n : Int) < 2 ^ e → n < e := fun e he =>
    (Nat.pow_lt_pow_iff_right (by decide : 1 < 2)).mp (by exact_mod_cast he)
  rcases k.range_cases with ⟨hleast, hbound⟩ | ⟨hleast, hbound⟩
  · have hn := hlt k.bits (by rw [← hbound]; exact hw.2)
    rw [hleast, hbound]
    exact ⟨pow_dvd_pow 2 hn.le, Int.dvd_zero _, by omega, hn⟩
  · have hn := hlt (k.bits - 1) (by rw [← hbound]; exact hw.2)
    have hdvd : (2 ^ n : Int) ∣ k.bound := hbound ▸ pow_dvd_pow 2 hn.le
    have hdouble : (2 : Int) ^ k.bits = 2 * 2 ^ (k.bits - 1) := by
      rw [← pow_succ', Nat.sub_add_cancel (by omega)]
    rw [hleast]
    exact ⟨hdvd, (Int.dvd_neg).mpr hdvd, by rw [hdouble, hbound]; omega, by omega⟩

/-- A bit pattern stands for the value that it was made from. -/
lemma ofBits_toBits (hk : k.bound - k.least = 2 ^ k.bits) (hv : k.Contains v) :
    k.ofBits (k.toBits v) = v := by
  obtain ⟨hlow, hhigh⟩ := hv
  have hpos : (0 : Int) < 2 ^ k.bits := Int.pow_pos (by decide)
  unfold ofBits toBits
  rw [Nat.one_shiftLeft]
  push_cast
  rw [Int.toNat_of_nonneg (Int.emod_nonneg v hpos.ne')]
  obtain ⟨hleast, hbound⟩ := k.least_le
  by_cases hneg : v < 0
  · have hwrapped : v % 2 ^ k.bits = v + 2 ^ k.bits := by
      rw [← Int.add_emod_right, Int.emod_eq_of_lt (by omega) (by omega)]
    rw [hwrapped, if_neg (by omega)]
    omega
  · rw [Int.emod_eq_of_lt (by omega) (by omega), if_pos hhigh]

/-- Rounding down commutes with taking the bit pattern, since units divide the number of values. -/
lemma toBits_floor (v : Int) (hn : n ≤ k.bits) :
    k.toBits (v / 2 ^ n * 2 ^ n) = k.toBits v / 2 ^ n * 2 ^ n := by
  have hw : (0 : Int) < 2 ^ n := Int.pow_pos (by decide)
  have hm : (0 : Int) < 2 ^ k.bits := Int.pow_pos (by decide)
  obtain ⟨c, hc⟩ : (2 ^ n : Int) ∣ 2 ^ k.bits := pow_dvd_pow 2 hn
  have hrest := Int.emod_nonneg v hm.ne'
  have hfloor : v / 2 ^ n * 2 ^ n % 2 ^ k.bits = v % 2 ^ k.bits / 2 ^ n * 2 ^ n := by
    have hquot : v / 2 ^ n = v % 2 ^ k.bits / 2 ^ n + c * (v / 2 ^ k.bits) := by
      conv_lhs => rw [← Int.emod_add_mul_ediv v (2 ^ k.bits)]
      rw [hc, Int.mul_assoc, Int.add_mul_ediv_left _ _ hw.ne', ← hc]
    have hshift : v / 2 ^ n * 2 ^ n =
        v % 2 ^ k.bits / 2 ^ n * 2 ^ n + 2 ^ k.bits * (v / 2 ^ k.bits) := by
      rw [hquot, hc]
      ring
    have hdown := Int.ediv_mul_le (v % 2 ^ k.bits) hw.ne'
    have hlt := Int.emod_lt_of_pos v hm
    rw [hshift, Int.add_mul_emod_self_left]
    exact Int.emod_eq_of_lt (Int.mul_nonneg (Int.ediv_nonneg hrest hw.le) hw.le) (by omega)
  unfold toBits
  rw [Nat.one_shiftLeft]
  push_cast
  rw [hfloor]
  have hquot := Int.mul_nonneg (Int.ediv_nonneg hrest hw.le) hw.le
  zify
  rw [Int.toNat_of_nonneg hquot, Int.toNat_of_nonneg hrest]

lemma contains_floor (hv : k.Contains v) (hw : k.Contains (2 ^ n)) :
    k.Contains (v / 2 ^ n * 2 ^ n) := by
  have hpos : (0 : Int) < 2 ^ n := Int.pow_pos (by decide)
  have hfloor := isGreatest_floor v hpos
  exact ⟨hfloor.2 ⟨(dvd_range hw).2.1, hv.1⟩, Int.lt_of_le_of_lt hfloor.1.2 hv.2⟩

/-- Clearing the bits below a unit rounds down to its multiples. -/
theorem clear_eq (hv : k.Contains v) (hw : k.Contains (2 ^ n)) :
    k.clear v (2 ^ n - 1) = v / 2 ^ n * 2 ^ n := by
  obtain ⟨_, _, hrange, hn⟩ := dvd_range hw
  have hpow : (2 : Int) ^ n ≤ 2 ^ k.bits := by
    exact_mod_cast Nat.pow_le_pow_right (by decide) hn.le
  have hpos : (0 : Int) < 2 ^ n := Int.pow_pos (by decide)
  have hmask : k.toBits (2 ^ n - 1) = 2 ^ n - 1 := by
    unfold toBits
    rw [Nat.one_shiftLeft]
    push_cast
    rw [Int.emod_eq_of_lt (by omega) (by omega)]
    have hcast : (2 : Int) ^ n = ((2 ^ n : Nat) : Int) := by push_cast; rfl
    omega
  have hbits : k.toBits v < 2 ^ k.bits := by
    have hm : (0 : Int) < 2 ^ k.bits := Int.pow_pos (by decide)
    have hlt := Int.emod_lt_of_pos v hm
    have hcast : (2 : Int) ^ k.bits = ((2 ^ k.bits : Nat) : Int) := by push_cast; rfl
    unfold toBits
    rw [Nat.one_shiftLeft]
    push_cast
    omega
  unfold clear
  rw [hmask, Nat.one_shiftLeft, and_highBits hbits hn.le, ← toBits_floor v hn.le]
  exact ofBits_toBits hrange (contains_floor hv hw)

/-- Rounding down never faults. -/
theorem alignDown_eq (hv : k.Contains v) (hw : k.Contains (2 ^ n)) :
    k.alignDown v (2 ^ n) = .ok (v / 2 ^ n * 2 ^ n) := by
  have hmask : k.sub (2 ^ n) 1 = .ok (2 ^ n - 1) := if_pos (contains_pred hw)
  unfold alignDown
  rw [hmask, ← clear_eq hv hw]
  rfl

/-- Rounding up is exact where the sum of the value and the unit is in the type. -/
theorem alignUp_eq (hv : k.Contains v) (hw : k.Contains (2 ^ n)) (hsum : v + 2 ^ n < k.bound) :
    k.alignUp v (2 ^ n) = .ok ((v + 2 ^ n - 1) / 2 ^ n * 2 ^ n) := by
  have hpos : (0 : Int) < 2 ^ n := Int.pow_pos (by decide)
  obtain ⟨hlow, _⟩ := hv
  have hraised : k.Contains (v + 2 ^ n - 1) := ⟨by omega, by omega⟩
  have hadd : k.add v (2 ^ n) = .ok (v + 2 ^ n) := if_pos ⟨by omega, hsum⟩
  have hsub : k.sub (v + 2 ^ n) 1 = .ok (v + 2 ^ n - 1) := if_pos hraised
  have hmask : k.sub (2 ^ n) 1 = .ok (2 ^ n - 1) := if_pos (contains_pred hw)
  unfold alignUp
  rw [hadd, ← clear_eq hraised hw, hmask]
  simp only [bind, Except.bind, hsub]
  rfl

/-- And faults where it is not. -/
theorem alignUp_fault (hsum : k.bound ≤ v + w) : k.alignUp v w = .error .addOverflow := by
  have hadd : k.add v w = .error .addOverflow := if_neg fun hin => Int.not_lt.mpr hsum hin.2
  unfold alignUp
  rw [hadd]
  rfl

/-- Away from the greatest multiple of the unit, rounding up answers the next multiple if the type has
it, and only then. -/
lemma alignUp_ok_iff {u : Int} (hv : k.Contains v) (hw : k.Contains (2 ^ n))
    (hne : v + 2 ^ n ≠ k.bound) :
    k.alignUp v (2 ^ n) = .ok u ↔ k.Contains u ∧ IsLeast (multiplesFrom (2 ^ n) v) u := by
  have hceil := isLeast_ceil v (Int.pow_pos (by decide) : (0 : Int) < 2 ^ n)
  by_cases hsum : v + 2 ^ n < k.bound
  · have hlow := hv.1
    have hhigh := Int.ediv_mul_le (v + 2 ^ n - 1) (pow_ne_zero n (by decide : (2 : Int) ≠ 0))
    have hnext := hceil.1.2
    rw [alignUp_eq hv hw hsum]
    constructor
    · rintro ⟨⟩
      exact ⟨⟨by omega, by omega⟩, hceil⟩
    · rintro ⟨_, hu⟩
      rw [hu.unique hceil]
  · rw [alignUp_fault (by omega)]
    refine ⟨nofun, fun ⟨hin, hu⟩ => ?_⟩
    have hroom := add_le_of_dvd hu.1.1 (dvd_range hw).1 hin.2
    have hle := hu.1.2
    omega

/-- There it faults, although the type has the answer. -/
lemma alignUp_greatest (hw : k.Contains (2 ^ n)) (hat : v + 2 ^ n = k.bound) :
    k.alignUp v (2 ^ n) = .error .addOverflow ∧ IsLeast (multiplesFrom (2 ^ n) v) v := by
  have hdvd : (2 ^ n : Int) ∣ v := by
    rw [show v = k.bound - 2 ^ n by omega]
    exact Int.dvd_sub (dvd_range hw).1 (Int.dvd_refl _)
  exact ⟨alignUp_fault hat.ge, isLeast_of_dvd hdvd⟩

end IntKind

namespace Word

lemma contains_word {a : Nat} : IntKind.word.Contains a ↔ a < limit := by
  have hbound : IntKind.word.bound = limit := rfl
  have hleast : IntKind.word.least = 0 := rfl
  unfold IntKind.Contains
  rw [hbound, hleast]
  omega

lemma alignUp_eq {value n : Nat} (hsum : value + 2 ^ n < limit) :
    alignUp value (2 ^ n) = .ok ((value + 2 ^ n - 1) / 2 ^ n * 2 ^ n) := by
  have hpos := Nat.two_pow_pos n
  have hbound : IntKind.word.bound = limit := rfl
  have hunit : IntKind.word.Contains (2 ^ n) := by
    exact_mod_cast contains_word.mpr (show 2 ^ n < limit by omega)
  have hround := IntKind.alignUp_eq (contains_word.mpr (show value < limit by omega)) hunit
    (by rw [hbound]; exact_mod_cast hsum)
  unfold alignUp
  rw [Nat.cast_pow, Nat.cast_ofNat, hround]
  have hcast : ((value : Int) + 2 ^ n - 1) / 2 ^ n * 2 ^ n =
      ((value + 2 ^ n - 1) / 2 ^ n * 2 ^ n : Nat) := by
    push_cast [show 1 ≤ value + 2 ^ n by omega]
    rfl
  rw [hcast]
  rfl

lemma alignUp_fault {value unit : Nat} (hsum : limit ≤ value + unit) :
    alignUp value unit = .error .addOverflow := by
  have hbound : IntKind.word.bound = limit := rfl
  unfold alignUp
  rw [IntKind.alignUp_fault (by rw [hbound]; exact_mod_cast hsum)]
  rfl

end Word

namespace Reservation

variable {sys : System} {page k : Nat}

/-- For a power of two, rounding by masks is rounding up to whole pages, where adding a page does not
lead past the last word. -/
lemma alignUp_eq_pageCeil (hpage : page = 2 ^ k) {n : Nat} (hsum : n + page < Word.limit) :
    Word.alignUp n page = .ok (pageCeil page n) := by
  have hpos := Nat.two_pow_pos k
  subst hpage
  rw [Word.alignUp_eq hsum, Nat.add_sub_assoc hpos]
  rfl

lemma create_eq (hsize : sys.pageSize = page) (hpage : page = 2 ^ k) {capacity : Nat}
    (hsum : max capacity 1 + page < Word.limit) :
    create sys capacity = .ok (reserve sys page (pageCeil page (max capacity 1))) := by
  have hpos := Nat.two_pow_pos k
  unfold create
  rw [hsize, if_neg (by omega), Int.toNat_natCast]
  simp only [alignUp_eq_pageCeil hpage hsum]
  rfl

lemma create_fault (hsize : sys.pageSize = page) (hpos : 0 < page) {capacity : Nat}
    (hsum : Word.limit ≤ max capacity 1 + page) : create sys capacity = .error .addOverflow := by
  unfold create
  rw [hsize, if_neg (by omega), Int.toNat_natCast]
  simp only [Word.alignUp_fault hsum]
  rfl

lemma create_answers_iff (hsize : sys.pageSize = page) (hpage : page = 2 ^ k) {capacity : Nat} :
    (∃ answer, create sys capacity = .ok answer) ↔ max capacity 1 + page < Word.limit := by
  have hpos := Nat.two_pow_pos k
  constructor
  · rintro ⟨answer, hmade⟩
    by_contra hsum
    have hfault := create_fault hsize (by omega) (Nat.le_of_not_lt hsum)
    exact absurd (hmade.symm.trans hfault) nofun
  · exact fun hsum => ⟨_, create_eq hsize hpage hsum⟩

lemma isLeast_pageCeil (hpos : 0 < page) (capacity : Nat) :
    IsLeast (multiplesFrom page capacity) (pageCeil page capacity) := by
  have hceil := isLeast_ceil (capacity : Int) (show (0 : Int) < page by omega)
  have hcast : ((pageCeil page capacity : Nat) : Int) =
      ((capacity : Int) + page - 1) / page * page := by
    unfold pageCeil
    push_cast [hpos]
    rw [Int.add_sub_assoc]
  rwa [hcast]

/-- The whole pages for a capacity are a word unless the last page is broken into. -/
lemma pageCeil_lt_iff (hpage : page = 2 ^ k) (hk : k < 63) {capacity : Nat} :
    pageCeil page capacity < Word.limit ↔ capacity + page ≤ Word.limit := by
  have hpos := Nat.two_pow_pos k
  have hceil := le_pageCeil (show 0 < page by omega) capacity
  have hlimit : page ∣ Word.limit := by
    rw [hpage, show Word.limit = 2 ^ 64 from rfl]
    exact Nat.pow_dvd_pow 2 (by omega)
  have hdvd : (page : Int) ∣ pageCeil page capacity :=
    Int.natCast_dvd_natCast.mpr (Nat.dvd_of_mod_eq_zero (pageCeil_mod page capacity))
  constructor
  · intro hlt
    have hroom := add_le_of_dvd hdvd (Int.natCast_dvd_natCast.mpr hlimit) (Int.ofNat_lt.mpr hlt)
    omega
  · intro hle
    have hup := Nat.div_mul_le_self (capacity + (page - 1)) page
    unfold pageCeil
    omega

end Reservation

open Reservation in
/-- In every integer type, for every value and every unit of the type that is a power of two: rounding
up answers the least multiple of the unit that is not below the value if the type has it, and faults
only if it does not, unless the value is the greatest multiple of the unit that the type has. Rounding
down always answers the greatest multiple that is not above the value. A reservation can round its
capacity, on a system with pages of any power of two, exactly if the whole pages are a word, unless the
capacity is the greatest such number of pages. -/
theorem IntKind.rounds_iff {k : IntKind} {v w : Int} (hv : k.Contains v) (hw : k.Contains w)
    (hpow : ∃ n : Nat, w = 2 ^ n) :
    ((∀ u, k.alignUp v w = .ok u ↔ k.Contains u ∧ IsLeast (multiplesFrom w v) u) ↔
        v + w ≠ k.bound) ∧
      (∃ d, k.alignDown v w = .ok d ∧ k.Contains d ∧ IsGreatest (multiplesTo w v) d) ∧
      ∀ sys : System, (∃ n < 63, sys.pageSize = 2 ^ n) → ∀ capacity : Nat, capacity < Word.limit →
        (((∃ answer, create sys capacity = .ok answer) ↔
            ∃ u < (Word.limit : Int), IsLeast (multiplesFrom sys.pageSize capacity) u) ↔
          capacity + sys.pageSize ≠ Word.limit) := by
  obtain ⟨n, rfl⟩ := hpow
  refine ⟨⟨fun hclaim hat => ?_, fun hne u => alignUp_ok_iff hv hw hne⟩, ?_, ?_⟩
  · obtain ⟨hfault, hself⟩ := alignUp_greatest hw hat
    exact absurd (hfault.symm.trans ((hclaim v).mpr ⟨hv, hself⟩)) nofun
  · exact ⟨_, alignDown_eq hv hw, contains_floor hv hw, isGreatest_floor v (Int.pow_pos (by decide))⟩
  · rintro sys ⟨n, hn, hsize⟩ capacity hlt
    obtain ⟨page, hpage⟩ : ∃ page : Nat, page = 2 ^ n := ⟨_, rfl⟩
    have hpos := Nat.two_pow_pos n
    have hle : 2 ^ n ≤ 2 ^ 62 := Nat.pow_le_pow_right (by decide) (by omega)
    rw [show (2 : Int) ^ n = (page : Int) by rw [hpage]; push_cast; rfl] at hsize
    have hleast := isLeast_pageCeil (show 0 < page by omega) capacity
    have hfits : (∃ u < (Word.limit : Int), IsLeast (multiplesFrom page capacity) u) ↔
        capacity + page ≤ Word.limit := by
      rw [← pageCeil_lt_iff hpage hn]
      constructor
      · rintro ⟨u, hu, hother⟩
        rw [hother.unique hleast] at hu
        exact_mod_cast hu
      · exact fun hu => ⟨_, by exact_mod_cast hu, hleast⟩
    rw [create_answers_iff hsize hpage, hsize, hfits]
    simp only [Word.limit] at *
    omega

/-- A negative value between two multiples, and the largest capacity below the excepted one. -/
theorem IntKind.rounds_iff_negative :
    IntKind.i8.Contains (-77) ∧ IntKind.i8.Contains 16 ∧ (-77 : Int) + 16 ≠ IntKind.i8.bound ∧
      IntKind.i8.alignUp (-77) 16 = .ok (-64) ∧ IsLeast (multiplesFrom 16 (-77)) (-64) ∧
      IntKind.i8.alignDown (-77) 16 = .ok (-80) ∧ IsGreatest (multiplesTo 16 (-77)) (-80) ∧
      ∃ answer, Reservation.create .common 0xffffffffffffefff = .ok answer := by
  have hvalue : IntKind.i8.Contains (-77) := by decide
  have hunit : IntKind.i8.Contains 16 := by decide
  have hne : (-77 : Int) + 16 ≠ IntKind.i8.bound := by decide
  have hup : IntKind.i8.alignUp (-77) 16 = .ok (-64) := by decide
  have hdown : IntKind.i8.alignDown (-77) 16 = .ok (-80) := by decide
  obtain ⟨hrounds, ⟨d, hd, _, hgreatest⟩, hpages⟩ :=
    IntKind.rounds_iff hvalue hunit ⟨4, by decide⟩
  obtain rfl := Except.ok.inj (hdown.symm.trans hd)
  have hcreates := (hpages .common System.common_lawful.pageSize_pow 0xffffffffffffefff
    (by decide)).mpr (by decide)
  exact ⟨hvalue, hunit, hne, hup, ((hrounds.mpr hne _).mp hup).2, hdown, hgreatest,
    hcreates.mpr ⟨0xfffffffffffff000, by decide, Reservation.isLeast_pageCeil (by decide) _⟩⟩

/-- The greatest multiple of a unit is its own answer, and is refused: the last page of the words,
and with it a capacity of as many bytes, and the last byte. -/
theorem IntKind.not_rounds :
    (IntKind.word.Contains 0xfffffffffffff000 ∧ IntKind.word.Contains 4096 ∧
        IsLeast (multiplesFrom 4096 0xfffffffffffff000) 0xfffffffffffff000 ∧
        IntKind.word.alignUp 0xfffffffffffff000 4096 = .error .addOverflow ∧
        Reservation.create .common 0xfffffffffffff000 = .error .addOverflow) ∧
      IntKind.u8.Contains 255 ∧ IntKind.u8.Contains 1 ∧ IsLeast (multiplesFrom 1 255) 255 ∧
        IntKind.u8.alignUp 255 1 = .error .addOverflow := by
  have hpage : (4096 : Int) ∣ 0xfffffffffffff000 := by decide
  exact ⟨⟨by decide, by decide, isLeast_of_dvd hpage, by decide, by decide⟩, by decide, by decide,
    isLeast_of_dvd (Int.one_dvd 255), by decide⟩

end BlockHeap
