import BlockHeap.Proofs.Rounding

/-!
# Pages that come back

The break of a reservation moves by single bytes, but memory goes back in whole pages. So a byte
between an unaligned break and the end of its page survives a shrink, and a byte on a page that lies
above the break reads as zero when the break returns. `left` says from what was done to a
reservation which byte each offset holds, and a reservation with any past holds exactly these,
whatever the size of a page, on a system that drops pages when it is told to.
-/

namespace BlockHeap

/-- Pages that the system is told to drop are dropped. -/
def System.Drops (sys : System) : Prop :=
  ∀ a count m, (sys.drop a count m).1 = none

namespace Reservation

/-- What a client does to the bytes of a reservation. -/
inductive Deed where
  /-- The break moved down to this offset, by no bytes or more. -/
  | lowered (stop : Nat)
  /-- `count` bytes from `offset` on were written, at each offset the byte that `f` gives. -/
  | wrote (offset count : Nat) (f : Nat → UInt8)

namespace Deed

/-- The byte that was written at the offset `o`, if one was. -/
def put? (o : Nat) : Deed → Option UInt8
  | lowered _ => none
  | wrote offset count f => if offset ≤ o ∧ o < offset + count then some (f o) else none

/-- Whether the page of the offset `o` was dropped, with pages of `page` bytes. -/
def drops (page o : Nat) : Deed → Bool
  | lowered stop => pageCeil page stop ≤ o
  | wrote .. => false

end Deed

/-- The byte that the deeds leave at the offset `o`, where the latest deed comes first: the last one
written since its page was dropped, and zero if there is none. -/
def left (page o : Nat) (deeds : List Deed) : UInt8 :=
  ((deeds.takeWhile fun deed => !deed.drops page o).findSome? (·.put? o)).getD 0

lemma left_lowered (page o stop : Nat) (deeds : List Deed) :
    left page o (.lowered stop :: deeds) =
      if pageCeil page stop ≤ o then 0 else left page o deeds := by
  by_cases h : pageCeil page stop ≤ o
  · simp [left, Deed.drops, h]
  · simp [left, Deed.drops, Deed.put?, h]

lemma left_wrote (page o offset count : Nat) (f : Nat → UInt8) (deeds : List Deed) :
    left page o (.wrote offset count f :: deeds) =
      if offset ≤ o ∧ o < offset + count then f o else left page o deeds := by
  by_cases h : offset ≤ o ∧ o < offset + count
  · simp [left, Deed.drops, Deed.put?, h]
  · simp [left, Deed.drops, Deed.put?, h]

variable {sys : System}

/-- The reservations and memories that come from `made` and `m₀` by growing, shrinking and writing
to committed bytes, with what was done on the way. -/
inductive Past (made : Reservation sys) (m₀ : Memory) :
    List Deed → Reservation sys → Memory → Prop
  | start : Past made m₀ [] made m₀
  | grow {deeds : List Deed} {r : Reservation sys} {m : Memory} (past : Past made m₀ deeds r m)
      (n : Nat) : Past made m₀ deeds (Segment.grow n r m).segment (Segment.grow n r m).memory
  | shrink {deeds : List Deed} {r : Reservation sys} {m : Memory} (past : Past made m₀ deeds r m)
      {n : Nat} (granted : (Segment.shrink n r m).refusal = none) :
      Past made m₀ (.lowered (Segment.committed (Segment.shrink n r m).segment) :: deeds)
        (Segment.shrink n r m).segment (Segment.shrink n r m).memory
  | shrinkRefused {deeds : List Deed} {r : Reservation sys} {m : Memory}
      (past : Past made m₀ deeds r m) {n : Nat} (refused : (Segment.shrink n r m).refusal ≠ none) :
      Past made m₀ deeds (Segment.shrink n r m).segment (Segment.shrink n r m).memory
  | write {deeds : List Deed} {r : Reservation sys} {m : Memory} (past : Past made m₀ deeds r m)
      (offset count : Nat) (f : Nat → UInt8) (within : offset + count ≤ Segment.committed r) :
      Past made m₀ (.wrote offset count f :: deeds) r
        (m.tabulate (r.base + offset) (r.base + offset + count) fun a => f (a - r.base))

/-- The answer to a request to move the break of `r` to the offset `stop`, which is refused exactly
when `refused` holds, and then changes nothing. -/
structure Answered (r : Reservation sys) (m : Memory) (refused : Prop) (error : SegmentError)
    (stop : Nat) (v : Segment.Move (Reservation sys)) : Prop where
  refused_iff : v.refusal ≠ none ↔ refused
  unchanged : v.refusal ≠ none → v = ⟨some error, r, m, []⟩
  moved : v.refusal = none → v.segment = { r with committed := stop }

lemma grow_answered (n : Nat) (r : Reservation sys) (m : Memory) :
    Answered r m (r.capacity - r.committed < n) (.exhausted n (r.capacity - r.committed))
      (r.committed + n) (Segment.grow n r m) := by
  simp only [Segment.grow]
  split
  next h => exact ⟨by simp [h], fun _ => rfl, nofun⟩
  next h => exact ⟨by simp [h], fun hrefused => absurd rfl hrefused, fun _ => rfl⟩

lemma grow_memory (n : Nat) (r : Reservation sys) (m : Memory) :
    (Segment.grow n r m).memory = m := by
  simp only [Segment.grow]
  split <;> rfl

lemma shrink_answered (n : Nat) (r : Reservation sys) (m : Memory) :
    Answered r m (r.committed < n) (.underflow n r.committed) (r.committed - n)
      (Segment.shrink n r m) := by
  simp only [Segment.shrink]
  split
  next h => exact ⟨by simp [h], fun _ => rfl, nofun⟩
  next h => exact ⟨by simp [h], fun hrefused => absurd rfl hrefused, fun _ => rfl⟩

/-- A reservation as a lawful system makes it: whole pages above address 0, with nothing committed. -/
structure Made (made : Reservation sys) : Prop where
  pageSize_eq : made.pageSize = sys.pageSize.toNat
  pageSize_pow : ∃ k < 63, made.pageSize = 2 ^ k
  base_mod : made.base % made.pageSize = 0
  base_pos : 0 < made.base
  end_lt : made.base + made.capacity < Word.limit
  empty : made.committed = 0

namespace Made

variable {made : Reservation sys}

lemma pageSize_pos (hm : made.Made) : 0 < made.pageSize := by
  obtain ⟨k, _, hpow⟩ := hm.pageSize_pow
  rw [hpow]
  exact Nat.two_pow_pos k

lemma pageSize_le (hm : made.Made) : made.pageSize ≤ made.base :=
  Nat.le_of_dvd hm.base_pos (Nat.dvd_of_mod_eq_zero hm.base_mod)

end Made

lemma reserve_ok {page capacity : Nat} {made : Reservation sys}
    (h : reserve sys page capacity = .ok made) :
    ∃ base, sys.map capacity = some base ∧ 0 < base ∧ made = ⟨base, capacity, 0, page⟩ := by
  unfold reserve at h
  split at h
  next => exact absurd h nofun
  next => exact absurd h nofun
  next base hzero hmap =>
    exact ⟨base, hmap, Nat.pos_of_ne_zero fun heq => hzero heq, (Except.ok.inj h).symm⟩

lemma create_made {asked : Nat} {made : Reservation sys} (hsys : sys.Lawful)
    (h : create sys asked = .ok (.ok made)) : made.Made := by
  obtain ⟨k, hk, hsize⟩ := hsys.pageSize_pow
  obtain ⟨page, hpage⟩ : ∃ page : Nat, page = 2 ^ k := ⟨_, rfl⟩
  rw [show (2 : Int) ^ k = (page : Int) by rw [hpage]; push_cast; rfl] at hsize
  have hsum := (create_answers_iff hsize hpage).mp ⟨_, h⟩
  obtain ⟨base, hmap, hpos, rfl⟩ :=
    reserve_ok (Except.ok.inj ((create_eq hsize hpage hsum).symm.trans h))
  have hmod := hsys.map_mod hmap
  rw [hsize, Int.toNat_natCast] at hmod
  exact ⟨by rw [hsize, Int.toNat_natCast], ⟨k, hk, hpage⟩, hmod, hpos, hsys.map_lt hmap, rfl⟩

/-- Without a warning, a shrink clears the pages between the new break and the old one. -/
lemma read_shrink (hsys : sys.Lawful) (hdrops : sys.Drops) {n : Nat} {r : Reservation sys}
    {m : Memory} (hpage : r.pageSize = sys.pageSize.toNat) (hbase : r.base % r.pageSize = 0)
    (hgranted : (Segment.shrink n r m).refusal = none) (o : Nat) :
    (Segment.shrink n r m).memory.read (r.base + o) =
      if pageCeil r.pageSize (r.committed - n) ≤ o ∧ o < pageCeil r.pageSize r.committed then 0
      else m.read (r.base + o) := by
  have hle : ¬r.committed < n := fun h => (shrink_answered n r m).refused_iff.mpr h hgranted
  have hsilent : (r.release (r.committed - n) m).2 = [] := by
    unfold release
    simp only [hdrops _ _ m]
    split <;> rfl
  simp only [Segment.shrink, if_neg hle]
  rcases release_cases hsys hpage hbase (r.committed - n) m with ⟨_, hread⟩ | ⟨hwarned, _⟩
  · simp only [hread, Nat.add_le_add_iff_left, Nat.add_lt_add_iff_left]
  · exact absurd hsilent hwarned

lemma pageCeil_mono (page : Nat) {a b : Nat} (h : a ≤ b) : pageCeil page a ≤ pageCeil page b :=
  Nat.mul_le_mul_right _ (Nat.div_le_div_right (Nat.add_le_add_right h _))

/-- A reservation made as `made` whose bytes are those that the deeds leave. -/
structure Backed (made : Reservation sys) (deeds : List Deed) (r : Reservation sys) (m : Memory) :
    Prop where
  base_eq : r.base = made.base
  capacity_eq : r.capacity = made.capacity
  pageSize_eq : r.pageSize = made.pageSize
  committed_le : r.committed ≤ r.capacity
  read_eq : ∀ o < r.capacity, m.read (r.base + o) = left r.pageSize o deeds
  zero_above : ∀ o, pageCeil r.pageSize r.committed ≤ o → left r.pageSize o deeds = 0

namespace Backed

variable {made r : Reservation sys} {m : Memory} {deeds : List Deed}

lemma start {m₀ : Memory} (hmade : made.Made)
    (hfresh : ∀ o < made.capacity, m₀.read (made.base + o) = 0) : Backed made [] made m₀ :=
  ⟨rfl, rfl, rfl, by rw [hmade.empty]; exact Nat.zero_le _, hfresh, fun _ _ => rfl⟩

lemma grow (hb : Backed made deeds r m) (n : Nat) :
    Backed made deeds (Segment.grow n r m).segment (Segment.grow n r m).memory := by
  have hanswer := grow_answered n r m
  rw [grow_memory]
  by_cases hgranted : (Segment.grow n r m).refusal = none
  · have hroom : ¬r.capacity - r.committed < n := fun h => hanswer.refused_iff.mpr h hgranted
    have hle := hb.committed_le
    rw [hanswer.moved hgranted]
    refine ⟨hb.base_eq, hb.capacity_eq, hb.pageSize_eq, ?_, hb.read_eq,
      fun o ho => hb.zero_above o ?_⟩
    · simp only
      omega
    · exact Nat.le_trans (pageCeil_mono _ (Nat.le_add_right _ _)) ho
  · rw [hanswer.unchanged hgranted]
    exact hb

lemma shrink (hsys : sys.Lawful) (hdrops : sys.Drops) (hmade : made.Made) {n : Nat}
    (hb : Backed made deeds r m) (hgranted : (Segment.shrink n r m).refusal = none) :
    Backed made (.lowered (Segment.committed (Segment.shrink n r m).segment) :: deeds)
      (Segment.shrink n r m).segment (Segment.shrink n r m).memory := by
  have hpage := hb.pageSize_eq.trans hmade.pageSize_eq
  have hread := read_shrink hsys hdrops hpage
    (by rw [hb.base_eq, hb.pageSize_eq]; exact hmade.base_mod) hgranted
  rw [(shrink_answered n r m).moved hgranted]
  refine ⟨hb.base_eq, hb.capacity_eq, hb.pageSize_eq, Nat.le_trans (Nat.sub_le _ _) hb.committed_le,
    fun o ho => ?_, fun o ho => ?_⟩
  · change (Segment.shrink n r m).memory.read (r.base + o) =
      left r.pageSize o (.lowered (r.committed - n) :: deeds)
    rw [hread, left_lowered, hb.read_eq o ho]
    -- above the old break's page the byte was zero before, although nothing is cleared there
    by_cases hdropped : pageCeil r.pageSize (r.committed - n) ≤ o
    · rw [if_pos hdropped]
      split
      next => rfl
      next habove => exact hb.zero_above o (by omega)
    · rw [if_neg hdropped, if_neg fun h => hdropped h.1]
  · exact (left_lowered _ _ _ _).trans (if_pos ho)

lemma write {offset count : Nat} (hmade : made.Made) (hb : Backed made deeds r m) (f : Nat → UInt8)
    (hwithin : offset + count ≤ r.committed) :
    Backed made (.wrote offset count f :: deeds) r
      (m.tabulate (r.base + offset) (r.base + offset + count) fun a => f (a - r.base)) := by
  refine ⟨hb.base_eq, hb.capacity_eq, hb.pageSize_eq, hb.committed_le, fun o ho => ?_,
    fun o ho => ?_⟩
  · rw [Memory.read_tabulate, left_wrote, hb.read_eq o ho, Nat.add_sub_cancel_left, Nat.add_assoc]
    simp only [Nat.add_le_add_iff_left, Nat.add_lt_add_iff_left]
  · have hpos : 0 < r.pageSize := hb.pageSize_eq ▸ hmade.pageSize_pos
    have hceil := le_pageCeil hpos r.committed
    rw [left_wrote, if_neg (by omega), hb.zero_above o ho]

end Backed

theorem Past.backed {made r : Reservation sys} {m₀ m : Memory} {deeds : List Deed}
    (hsys : sys.Lawful) (hdrops : sys.Drops) (hmade : made.Made)
    (hfresh : ∀ o < made.capacity, m₀.read (made.base + o) = 0) (hpast : Past made m₀ deeds r m) :
    Backed made deeds r m := by
  induction hpast with
  | start => exact .start hmade hfresh
  | grow _ n ih => exact ih.grow n
  | shrink _ granted ih => exact ih.shrink hsys hdrops hmade granted
  | shrinkRefused _ refused ih =>
    rwa [(shrink_answered _ _ _).unchanged refused]
  | write _ _ _ f within ih => exact ih.write hmade f within

/-- What holds of a reservation that was made as `made`, after these deeds. -/
structure Accounted (made : Reservation sys) (deeds : List Deed) (r : Reservation sys) (m : Memory) :
    Prop where
  start_eq : Segment.start r = Segment.start made
  capacity_eq : r.capacity = made.capacity
  committed_le : Segment.committed r ≤ r.capacity
  pageSize_eq : Segment.pageSize r = sys.pageSize
  /-- Rounding an offset to whole pages does not fault. -/
  rounded : ∀ o ≤ r.capacity,
    Word.alignUp o (Segment.pageSize r) = .ok (pageCeil (Segment.pageSize r) o)
  grow_answered : ∀ n, Answered r m (r.capacity - r.committed < n)
    (.exhausted n (r.capacity - r.committed)) (r.committed + n) (Segment.grow n r m)
  shrink_answered : ∀ n, Answered r m (r.committed < n) (.underflow n r.committed)
    (r.committed - n) (Segment.shrink n r m)
  grow_kept : ∀ n, (Segment.grow n r m).memory = m
  /-- A shrink keeps all bytes up to the end of the page in which the new break is. -/
  shrink_kept : ∀ n, (Segment.shrink n r m).refusal = none →
    ∀ o < pageCeil (Segment.pageSize r) (r.committed - n),
      (Segment.shrink n r m).memory.read (r.base + o) = m.read (r.base + o)
  zero_above : ∀ o < r.capacity, pageCeil (Segment.pageSize r) (Segment.committed r) ≤ o →
    m.read (r.base + o) = 0
  read_committed : ∀ o < Segment.committed r,
    m.read (r.base + o) = left (Segment.pageSize r) o deeds

/-- Whatever is done to a reservation over fresh memory, on a lawful system that drops pages when it is
told to: its place and its capacity stay, requests are refused exactly when they do not fit, and each
byte is the last one written since its page was dropped. -/
theorem Past.accounted {asked : Nat} {made r : Reservation sys} {m₀ m : Memory} {deeds : List Deed}
    (hsys : sys.Lawful) (hdrops : sys.Drops) (hmade : create sys asked = .ok (.ok made))
    (hfresh : ∀ o < made.capacity, m₀.read (Segment.start made + o) = 0)
    (hpast : Past made m₀ deeds r m) : Accounted made deeds r m := by
  have hm := create_made hsys hmade
  have hb := hpast.backed hsys hdrops hm hfresh
  have hle := hb.committed_le
  have hpage := hb.pageSize_eq.trans hm.pageSize_eq
  have hbase : r.base % r.pageSize = 0 := by
    rw [hb.base_eq, hb.pageSize_eq]
    exact hm.base_mod
  obtain ⟨k, _, hpow⟩ := hm.pageSize_pow
  have hpow : r.pageSize = 2 ^ k := hb.pageSize_eq.trans hpow
  refine ⟨hb.base_eq, hb.capacity_eq, hle, ?_, fun o ho => ?_,
    fun n => Reservation.grow_answered n r m, fun n => Reservation.shrink_answered n r m,
    fun n => grow_memory n r m, fun n hgranted o ho => ?_, fun o ho habove => ?_, fun o ho => ?_⟩
  · obtain ⟨_, _, hsize⟩ := hsys.pageSize_pow
    change (r.pageSize : Int) = sys.pageSize
    rw [hpage, Int.toNat_of_nonneg (by rw [hsize]; exact pow_nonneg (by decide) _)]
  · -- the reservation lies above the first page and below the last address
    have hfirst := hm.pageSize_le
    have hend := hm.end_lt
    rw [hb.capacity_eq] at ho
    refine alignUp_eq_pageCeil hpow ?_
    rw [hb.pageSize_eq]
    omega
  · rw [read_shrink hsys hdrops hpage hbase hgranted, if_neg (Nat.not_le_of_lt ho ·.1)]
  · rw [hb.read_eq o ho]
    exact hb.zero_above o habove
  · exact hb.read_eq o (Nat.lt_of_lt_of_le ho hle)

/-- Bytes around the end of a page of 2 ^ 14 bytes are written. A first shrink stops inside that page,
a second one as well, so nothing more is dropped. After the break came back, the bytes of that page
are still there, those of the next one are gone. -/
theorem Past.accounted_regrown : ∃ made r : Reservation (.simple 16384 0x100000), ∃ m : Memory,
    let deeds := [.lowered 5000, .lowered 10000, .wrote 12300 5000 fun _ => 7]
    System.Lawful (.simple 16384 0x100000) ∧ System.Drops (.simple 16384 0x100000) ∧
      create _ 20000 = .ok (.ok made) ∧
      (∀ o < made.capacity, blank.read (Segment.start made + o) = 0) ∧ Past made blank deeds r m ∧
      Accounted made deeds r m ∧ Segment.committed r = 20000 ∧ m.read (r.base + 12300) = 7 ∧
      m.read (r.base + 16383) = 7 ∧ m.read (r.base + 16384) = 0 := by
  have hsys : System.Lawful (.simple 16384 0x100000) :=
    System.simple_lawful (k := 14) (by decide) rfl rfl (by decide)
  have hdrops : System.Drops (.simple 16384 0x100000) := fun _ _ _ => rfl
  have hmade : create (.simple 16384 0x100000) 20000 = .ok (.ok ⟨0x100000, 32768, 0, 16384⟩) := by
    decide +kernel
  have hfresh : ∀ o < 32768, blank.read (0x100000 + o) = 0 := fun o _ => by
    simp [blank, Memory.blankOf, Memory.read]
  have hstart : Past (⟨0x100000, 32768, 0, 16384⟩ : Reservation (.simple 16384 0x100000)) blank []
    ⟨0x100000, 32768, 0, 16384⟩ blank := .start
  have hwritten := (hstart.grow 20000).write 12300 5000 (fun _ => 7) (by decide)
  have hlowered := (hwritten.shrink (n := 10000) rfl).shrink (n := 5000) rfl
  have hpast := hlowered.grow 15000
  have haccounted := Past.accounted hsys hdrops hmade hfresh hpast
  refine ⟨_, _, _, hsys, hdrops, hmade, hfresh, hpast, haccounted, ?_, ?_, ?_, ?_⟩
  · decide +kernel
  · exact (haccounted.read_committed 12300 (by decide +kernel)).trans (by decide +kernel)
  · exact (haccounted.read_committed 16383 (by decide +kernel)).trans (by decide +kernel)
  · exact (haccounted.read_committed 16384 (by decide +kernel)).trans (by decide +kernel)

end Reservation
end BlockHeap
