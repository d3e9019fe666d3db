import BlockHeap.Proofs.Layout
import BlockHeap.Segment.Reservation
import BlockHeap.Segment.Script

/-!
# Exact providers

A provider of segments is exact when a request that it grants moves the break by exactly the bytes
asked, a request that it refuses leaves the break where it was, and neither touches the bytes below
the break. What it does to bytes above the break is its own affair, and so is when it refuses.
A reservation at a page boundary of a lawful system is exact, and so is a script that grants all of a
request or nothing.

A provider is loose when a request to grow that it grants moves the break up by any number of bytes.
Every script is loose.
-/

namespace BlockHeap
namespace Segment

variable {σ : Type} [Segment σ]

/-- The address of the first word that reaches into the segment: its start, if that is a multiple of
the word size. -/
def firstWord (s : σ) : Nat :=
  start s / wordSize * wordSize

/-- The segments that satisfy `P`, which they keep, do exactly what they are asked. -/
structure Exact (P : σ → Prop) : Prop where
  stop_lt : ∀ {s : σ}, P s → stop s < Word.limit
  grow_valid : ∀ {s : σ} (n : Nat) (m : Memory), P s → P (grow n s m).segment
  grow_start : ∀ {s : σ} (n : Nat) (m : Memory), P s → start (grow n s m).segment = start s
  grow_granted : ∀ {s : σ} (n : Nat) (m : Memory), P s → (grow n s m).refusal = none →
    stop (grow n s m).segment = stop s + n
  grow_refused : ∀ {s : σ} (n : Nat) (m : Memory), P s → (grow n s m).refusal ≠ none →
    stop (grow n s m).segment = stop s
  grow_kept : ∀ {s : σ} (n : Nat) (m : Memory), P s →
    ∀ a, firstWord s ≤ a → a < stop s → (grow n s m).memory.read a = m.read a
  shrink_valid : ∀ {s : σ} (n : Nat) (m : Memory), P s → P (shrink n s m).segment
  shrink_start : ∀ {s : σ} (n : Nat) (m : Memory), P s → start (shrink n s m).segment = start s
  shrink_granted : ∀ {s : σ} (n : Nat) (m : Memory), P s → (shrink n s m).refusal = none →
    stop (shrink n s m).segment + n = stop s
  shrink_refused : ∀ {s : σ} (n : Nat) (m : Memory), P s → (shrink n s m).refusal ≠ none →
    stop (shrink n s m).segment = stop s
  shrink_kept : ∀ {s : σ} (n : Nat) (m : Memory), P s →
    ∀ a, firstWord s ≤ a → a < stop (shrink n s m).segment →
      (shrink n s m).memory.read a = m.read a

/-- The segments that satisfy `P`, which growing keeps, grow by any number of bytes when they grant
that. -/
structure Loose (P : σ → Prop) : Prop where
  stop_lt : ∀ {s : σ}, P s → stop s < Word.limit
  grow_valid : ∀ {s : σ} (n : Nat) (m : Memory), P s → P (grow n s m).segment
  grow_start : ∀ {s : σ} (n : Nat) (m : Memory), P s → start (grow n s m).segment = start s
  grow_granted : ∀ {s : σ} (n : Nat) (m : Memory), P s → (grow n s m).refusal = none →
    stop s ≤ stop (grow n s m).segment
  grow_refused : ∀ {s : σ} (n : Nat) (m : Memory), P s → (grow n s m).refusal ≠ none →
    stop (grow n s m).segment = stop s
  grow_kept : ∀ {s : σ} (n : Nat) (m : Memory), P s →
    ∀ a, firstWord s ≤ a → a < stop s → (grow n s m).memory.read a = m.read a

lemma Exact.loose {P : σ → Prop} (hP : Exact P) : Loose P where
  stop_lt := hP.stop_lt
  grow_valid := hP.grow_valid
  grow_start := hP.grow_start
  grow_granted n m hs hanswer := by
    rw [hP.grow_granted n m hs hanswer]
    exact Nat.le_add_right _ _
  grow_refused := hP.grow_refused
  grow_kept := hP.grow_kept

/-- What becomes of a segment that was asked to move its break, by `moved` if it grants that. -/
structure Moves (P : σ → Prop) (s : σ) (m : Memory) (v : Move σ) (moved : Prop) : Prop where
  valid : P v.segment
  start_eq : start v.segment = start s
  granted : v.refusal = none → moved
  refused : v.refusal ≠ none → stop v.segment = stop s
  kept : ∀ a, a < stop s → a < stop v.segment → v.memory.read a = m.read a

/-- A break that does not move down leaves all bytes below it alone. -/
lemma Moves.kept_up {P : σ → Prop} {s : σ} {m : Memory} {v : Move σ} {moved : Prop}
    (hv : Moves P s m v moved) (hup : moved → stop s ≤ stop v.segment) {a : Nat} (ha : a < stop s) :
    v.memory.read a = m.read a := by
  refine hv.kept a ha ?_
  by_cases hanswer : v.refusal = none
  · exact Nat.lt_of_lt_of_le ha (hup (hv.granted hanswer))
  · rwa [hv.refused hanswer]

theorem Exact.of_moves {P : σ → Prop} (hstop : ∀ {s : σ}, P s → stop s < Word.limit)
    (hgrow : ∀ {s : σ} (n : Nat) (m : Memory), P s →
      Moves P s m (grow n s m) (stop (grow n s m).segment = stop s + n))
    (hshrink : ∀ {s : σ} (n : Nat) (m : Memory), P s →
      Moves P s m (shrink n s m) (stop (shrink n s m).segment + n = stop s)) : Exact P where
  stop_lt := hstop
  grow_valid n m hs := (hgrow n m hs).valid
  grow_start n m hs := (hgrow n m hs).start_eq
  grow_granted n m hs := (hgrow n m hs).granted
  grow_refused n m hs := (hgrow n m hs).refused
  grow_kept n m hs _ _ ha := (hgrow n m hs).kept_up (fun hmoved => by omega) ha
  shrink_valid n m hs := (hshrink n m hs).valid
  shrink_start n m hs := (hshrink n m hs).start_eq
  shrink_granted n m hs := (hshrink n m hs).granted
  shrink_refused n m hs := (hshrink n m hs).refused
  shrink_kept := by
    intro s n m hs a _ ha
    have hmoves := hshrink n m hs
    apply hmoves.kept a _ ha
    by_cases hrefusal : (shrink n s m).refusal = none
    · have hgranted := hmoves.granted hrefusal
      omega
    · rw [← hmoves.refused hrefusal]
      exact ha

end Segment

lemma Arena.Sited.firstWord_le {σ : Type} [Segment σ] {h : Arena σ} (hs : h.Sited) :
    Segment.firstWord h.segment + wordSize ≤ h.start := by
  have h0 := hs.aligned
  have h1 := hs.base_lt
  unfold Segment.firstWord
  simp only [blockUnit] at h0
  simp only [wordSize]
  omega

namespace System

/-- What a reservation relies on. Pages that are dropped read as zero, unless dropping them fails; then
they stay, and all other bytes stay anyway. -/
structure Lawful (sys : System) : Prop where
  pageSize_pow : ∃ k < 63, sys.pageSize = 2 ^ k
  map_mod : ∀ {count a : Nat}, sys.map count = some a → a % sys.pageSize.toNat = 0
  map_lt : ∀ {count a : Nat}, sys.map count = some a → a + count < Word.limit
  drop_done : ∀ {a count : Nat} (m : Memory), a % sys.pageSize.toNat = 0 →
    count % sys.pageSize.toNat = 0 → (sys.drop a count m).1 = none →
    ∀ b, (sys.drop a count m).2.read b = if a ≤ b ∧ b < a + count then 0 else m.read b
  drop_failed : ∀ {a count : Nat} (m : Memory), (sys.drop a count m).1 ≠ none →
    (sys.drop a count m).2 = m

theorem simple_lawful {page base k : Nat} (hk : k < 63) (hpage : page = 2 ^ k)
    (hbase : base % page = 0) (hlimit : base + 0x800000000000 ≤ Word.limit) :
    (simple page base).Lawful where
  pageSize_pow := ⟨k, hk, by rw [hpage]; exact Nat.cast_pow 2 k⟩
  map_mod := by
    intro count a ha
    obtain ⟨_, hsame⟩ := Option.ite_none_right_eq_some.mp ha
    exact Option.some.inj hsame ▸ hbase
  map_lt := by
    intro count a ha
    obtain ⟨hlt, hsame⟩ := Option.ite_none_right_eq_some.mp ha
    obtain rfl := Option.some.inj hsame
    omega
  drop_done m _ _ _ b := Memory.read_fill m _ _ _ b
  drop_failed _ hfailed := absurd rfl hfailed

lemma common_lawful : common.Lawful :=
  simple_lawful (k := 12) (by decide) rfl rfl (by decide)

end System

namespace Reservation

variable {sys : System}

/-- A reservation of whole pages within the address space, on a lawful system with pages that hold a
word. -/
structure Paged (r : Reservation sys) : Prop where
  lawful : sys.Lawful
  pageSize_eq : r.pageSize = sys.pageSize.toNat
  word_le : wordSize ≤ r.pageSize
  base_mod : r.base % r.pageSize = 0
  committed_le : r.committed ≤ r.capacity
  end_lt : r.base + r.capacity < Word.limit

lemma paged_common {capacity : Nat} (hlt : 0x100000 + capacity < Word.limit) :
    Paged (⟨0x100000, capacity, 0, 4096⟩ : Reservation .common) :=
  ⟨System.common_lawful, rfl, show 8 ≤ 4096 by decide, show 0x100000 % 4096 = 0 by decide,
    Nat.zero_le _, hlt⟩

lemma Paged.pageSize_pow {r : Reservation sys} (hr : r.Paged) : ∃ k < 63, r.pageSize = 2 ^ k := by
  obtain ⟨k, hk, hpow⟩ := hr.lawful.pageSize_pow
  refine ⟨k, hk, ?_⟩
  rw [hr.pageSize_eq, hpow]
  rfl

/-- A page boundary is a multiple of the word size. -/
lemma Paged.word_dvd {r : Reservation sys} (hr : r.Paged) : wordSize ∣ r.pageSize := by
  obtain ⟨k, _, hpow⟩ := hr.pageSize_pow
  have hle := hr.word_le
  rw [hpow] at hle ⊢
  exact Nat.pow_dvd_pow 2 ((Nat.pow_le_pow_iff_right (by decide)).mp (show 2 ^ 3 ≤ 2 ^ k from hle))

lemma le_pageCeil {page : Nat} (hpos : 0 < page) (n : Nat) : n ≤ pageCeil page n := by
  have hlast := Nat.lt_div_mul_add (a := n + (page - 1)) hpos
  unfold pageCeil
  omega

lemma pageCeil_mod (page n : Nat) : pageCeil page n % page = 0 :=
  Nat.mul_mod_left _ _

/-- The pages between the breaks are cleared, or nothing is, and then a warning says so. -/
lemma release_cases {r : Reservation sys} (hlawful : sys.Lawful)
    (hpage : r.pageSize = sys.pageSize.toNat) (hbase : r.base % r.pageSize = 0) (stop : Nat)
    (m : Memory) :
    ((r.release stop m).2 = [] ∧ ∀ a, (r.release stop m).1.read a =
        if r.base + pageCeil r.pageSize stop ≤ a ∧ a < r.base + pageCeil r.pageSize r.committed then 0
        else m.read a) ∨
      (r.release stop m).2 ≠ [] ∧ (r.release stop m).1 = m := by
  have hlow := pageCeil_mod r.pageSize stop
  have hhigh := pageCeil_mod r.pageSize r.committed
  unfold release
  generalize pageCeil r.pageSize stop = low at *
  generalize pageCeil r.pageSize r.committed = high at *
  simp only
  split
  next hlt =>
    have hplace : (r.base + low) % sys.pageSize.toNat = 0 := by
      rw [← hpage, Nat.add_mod, hbase, hlow, Nat.zero_mod]
    have hcount : (high - low) % sys.pageSize.toNat = 0 := by
      rw [← hpage]
      exact Nat.sub_mod_eq_zero_of_mod_eq (hhigh.trans hlow.symm)
    cases hdropped : (sys.drop (r.base + low) (high - low) m).1 with
    | none =>
      refine Or.inl ⟨rfl, fun a => ?_⟩
      rw [hlawful.drop_done m hplace hcount hdropped, Nat.add_assoc, Nat.add_sub_cancel' hlt.le]
    | some error =>
      refine Or.inr ⟨List.cons_ne_nil _ _, ?_⟩
      exact hlawful.drop_failed m (by rw [hdropped]; exact Option.some_ne_none error)
  next hnone =>
    refine Or.inl ⟨rfl, fun a => ?_⟩
    rw [if_neg (by omega)]

/-- Growing changes no byte, shrinking none below the new break. -/
theorem exact_paged : Segment.Exact (Paged : Reservation sys → Prop) := by
  apply Segment.Exact.of_moves
  · intro r hr
    have h0 := hr.committed_le
    have h1 := hr.end_lt
    change r.base + r.committed < Word.limit
    omega
  · intro r n m hr
    have hle := hr.committed_le
    simp only [Segment.grow]
    split
    next => exact ⟨hr, rfl, nofun, fun _ => rfl, fun _ _ _ => rfl⟩
    next hroom =>
      refine ⟨⟨hr.lawful, hr.pageSize_eq, hr.word_le, hr.base_mod, ?_, hr.end_lt⟩, rfl,
        fun _ => (Nat.add_assoc _ _ _).symm, ?_, fun _ _ _ => rfl⟩
      · simp only
        omega
      · exact fun hrefused => absurd rfl hrefused
  · intro r n m hr
    have hle := hr.committed_le
    simp only [Segment.shrink]
    split
    next => exact ⟨hr, rfl, nofun, fun _ => rfl, fun _ _ _ => rfl⟩
    next hroom =>
      refine ⟨⟨hr.lawful, hr.pageSize_eq, hr.word_le, hr.base_mod, ?_, hr.end_lt⟩, rfl,
        fun _ => ?_, ?_, ?_⟩
      · simp only
        omega
      · change r.base + (r.committed - n) + n = r.base + r.committed
        omega
      · exact fun hrefused => absurd rfl hrefused
      · intro a _ ha
        have hword := hr.word_le
        simp only [wordSize] at hword
        have hceil := le_pageCeil (show 0 < r.pageSize by omega) (r.committed - n)
        change a < r.base + (r.committed - n) at ha
        rcases release_cases hr.lawful hr.pageSize_eq hr.base_mod (r.committed - n) m with
          ⟨_, hread⟩ | ⟨_, hsame⟩
        · rw [hread, if_neg (by omega)]
        · rw [hsame]

end Reservation

namespace Script

/-- A script within the address space that never grants part of a request. -/
structure Honest (s : Script) : Prop where
  committed_le : s.committed ≤ s.capacity
  end_lt : s.base + s.capacity < Word.limit
  honest : ∀ n, .grantOnly n ∉ s.growth

variable {s : Script}

lemma Honest.tail (hs : s.Honest) : Honest { s with growth := s.growth.tail } :=
  ⟨hs.committed_le, hs.end_lt, fun n hn => hs.honest n (List.mem_of_mem_tail hn)⟩

lemma Honest.grow_cases (hs : s.Honest) (n : Nat) (m : Memory) :
    let next := { s with growth := s.growth.tail }
    (∃ error, Script.grow n s m = ⟨some error, next, m, []⟩) ∨
      s.committed + n ≤ s.capacity ∧
        Script.grow n s m = ⟨none, { next with committed := s.committed + n }, m, []⟩ := by
  intro next
  unfold Script.grow
  cases hverdict : s.growth.headD .grant with
  | grant =>
    simp only [raise]
    split
    next => exact Or.inl ⟨_, rfl⟩
    next hroom =>
      have hle := hs.committed_le
      exact Or.inr ⟨by omega, rfl⟩
  | grantOnly k =>
    have hmem : .grantOnly k ∈ s.growth := by
      cases hgrowth : s.growth with
      | nil =>
        rw [hgrowth] at hverdict
        exact absurd hverdict nofun
      | cons v rest =>
        rw [hgrowth] at hverdict
        exact List.mem_cons.mpr (Or.inl hverdict.symm)
    exact absurd hmem (hs.honest k)
  | deny => exact Or.inl ⟨_, rfl⟩
  | unmapped => exact Or.inl ⟨_, rfl⟩

lemma shrink_cases (s : Script) (n : Nat) (m : Memory) :
    let next := { s with shrinkage := s.shrinkage.tail }
    (∃ error, Script.shrink n s m = ⟨some error, next, m, []⟩) ∨
      n ≤ s.committed ∧
        Script.shrink n s m = ⟨none, { next with committed := s.committed - n }, m, []⟩ := by
  intro next
  unfold Script.shrink
  cases s.shrinkage.headD .grant with
  | grant | grantOnly =>
    by_cases hlt : s.committed < n
    · exact Or.inl ⟨_, if_pos hlt⟩
    · exact Or.inr ⟨Nat.le_of_not_lt hlt, if_neg hlt⟩
  | deny => exact Or.inl ⟨_, rfl⟩
  | unmapped => exact Or.inl ⟨_, rfl⟩

/-- Whatever an honest script refuses, it is exact. -/
theorem exact_honest : Segment.Exact Honest := by
  apply Segment.Exact.of_moves
  · intro s hs
    have h0 := hs.committed_le
    have h1 := hs.end_lt
    change s.base + s.committed < Word.limit
    omega
  · intro s n m hs
    have htail := hs.tail
    simp only [Segment.grow]
    rcases hs.grow_cases n m with ⟨error, heq⟩ | ⟨hroom, heq⟩
    · rw [heq]
      exact ⟨htail, rfl, nofun, fun _ => rfl, fun _ _ _ => rfl⟩
    · rw [heq]
      exact ⟨⟨hroom, htail.end_lt, htail.honest⟩, rfl, fun _ => (Nat.add_assoc _ _ _).symm,
        fun hrefused => absurd rfl hrefused, fun _ _ _ => rfl⟩
  · intro s n m hs
    have hle := hs.committed_le
    simp only [Segment.shrink]
    rcases s.shrink_cases n m with ⟨error, heq⟩ | ⟨hroom, heq⟩
    · rw [heq]
      exact ⟨⟨hle, hs.end_lt, hs.honest⟩, rfl, nofun, fun _ => rfl, fun _ _ _ => rfl⟩
    · rw [heq]
      refine ⟨⟨?_, hs.end_lt, hs.honest⟩, rfl, fun _ => ?_, fun hrefused => absurd rfl hrefused,
        fun _ _ _ => rfl⟩
      · simp only
        omega
      · change s.base + (s.committed - n) + n = s.base + s.committed
        omega

/-- A script within the address space. -/
structure Bounded (s : Script) : Prop where
  committed_le : s.committed ≤ s.capacity
  end_lt : s.base + s.capacity < Word.limit

lemma Bounded.raise_cases {next : Script} (hs : next.Bounded) (asked bytes : Nat) (m : Memory) :
    (∃ error, Script.raise asked bytes next m = ⟨some error, next, m, []⟩) ∨
      next.committed + bytes ≤ next.capacity ∧
        Script.raise asked bytes next m =
          ⟨none, { next with committed := next.committed + bytes }, m, []⟩ := by
  have hle := hs.committed_le
  unfold raise
  split
  next => exact Or.inl ⟨_, rfl⟩
  next hroom => exact Or.inr ⟨by omega, rfl⟩

/-- A script grows by some number of bytes, or not at all. -/
lemma Bounded.grow_cases (hs : s.Bounded) (n : Nat) (m : Memory) :
    let next := { s with growth := s.growth.tail }
    (∃ error, Script.grow n s m = ⟨some error, next, m, []⟩) ∨
      ∃ bytes, s.committed + bytes ≤ s.capacity ∧
        Script.grow n s m = ⟨none, { next with committed := s.committed + bytes }, m, []⟩ := by
  intro next
  have hnext : next.Bounded := ⟨hs.committed_le, hs.end_lt⟩
  unfold Script.grow
  cases s.growth.headD .grant with
  | grant => exact (hnext.raise_cases n n m).imp_right fun h => ⟨n, h⟩
  | grantOnly bytes => exact (hnext.raise_cases n bytes m).imp_right fun h => ⟨bytes, h⟩
  | deny | unmapped => exact Or.inl ⟨_, rfl⟩

theorem loose_bounded : Segment.Loose Bounded := by
  have hmoves : ∀ {s : Script} (n : Nat) (m : Memory), s.Bounded →
      Segment.Moves Bounded s m (Segment.grow n s m)
        (Segment.stop s ≤ Segment.stop (Segment.grow n s m).segment) := by
    intro s n m hs
    simp only [Segment.grow]
    rcases hs.grow_cases n m with ⟨error, heq⟩ | ⟨bytes, hroom, heq⟩
    · rw [heq]
      exact ⟨⟨hs.committed_le, hs.end_lt⟩, rfl, nofun, fun _ => rfl, fun _ _ _ => rfl⟩
    · rw [heq]
      refine ⟨⟨hroom, hs.end_lt⟩, rfl, fun _ => ?_, fun hrefused => absurd rfl hrefused,
        fun _ _ _ => rfl⟩
      exact Nat.add_le_add_left (Nat.le_add_right _ _) s.base
  constructor
  · intro s hs
    have hle := hs.committed_le
    have hlt := hs.end_lt
    change s.base + s.committed < Word.limit
    omega
  · exact fun n m hs => (hmoves n m hs).valid
  · exact fun n m hs => (hmoves n m hs).start_eq
  · exact fun n m hs => (hmoves n m hs).granted
  · exact fun n m hs => (hmoves n m hs).refused
  · exact fun n m hs a _ ha => (hmoves n m hs).kept_up id ha

end Script
end BlockHeap
