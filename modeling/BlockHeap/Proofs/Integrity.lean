import BlockHeap.Proofs.Session

/-!
# Integrity of heaps

Whatever a client does within the rules, its heap stays well formed: the chain lies between its
sentinels and ends where the segment lets it, every header equals its footer, and no two free blocks
are neighbours. Then a check finds no damage, and every further call is answered.
-/

namespace BlockHeap

variable {σ : Type} [Segment σ]

/-- The heap is well formed, with these blocks from its start to its stop. -/
structure Arena.Formed (h : Arena σ) (blocks : List Piece) : Prop where
  before : h.memory.word (h.start - wordSize) = Tag.sentinel.bits
  after : h.memory.word h.stop = Tag.sentinel.bits
  tiles : Tiles h.memory h.start blocks
  lands : h.start + span blocks = h.stop
  merged : Merged blocks
  floor_le : h.floor ≤ h.stop
  ends : h.stop = Word.floorUnit (Segment.stop h.segment - wordSize)

/-- What is found in a well-formed heap is its chain. -/
lemma Arena.Formed.eq_of_linked {h : Arena σ} {xs ys : List Piece} (hx : h.Formed xs)
    (hy : h.Linked ys) : xs = ys :=
  hx.tiles.unique hy.chained.tiles (Nat.add_left_cancel (hx.lands.trans hy.lands.symm))

namespace Arena.Sound

variable {P : σ → Prop} {h : Arena σ} {blocks : List Piece}

lemma formed (hs : h.Sound P blocks) : h.Formed blocks := by
  have hafter := hs.chained.after
  rw [hs.stop_eq] at hafter
  exact ⟨hs.chained.before, hafter, hs.chained.tiles, hs.stop_eq, hs.merged, hs.floor_le, hs.ends⟩

lemma check_eq (hs : h.Sound P blocks) :
    h.check = .ok (h.reportOf blocks) ∧ (h.reportOf blocks).consistent = true := by
  constructor
  · refine Arena.check_eq hs.toLaid fun c hc => ?_
    obtain ⟨pre, p, post, _, rfl⟩ := mem_heads_iff.mp (hs.cursor c hc)
    exact Nat.le_add_right _ _
  · have hnone := (Report.freeAfterFree_rowsOf_iff h.start h.start blocks).mpr hs.merged
    unfold Report.consistent reportOf
    rw [hnone]
    rfl

end Arena.Sound

variable {P : σ → Prop} {segment : σ} {memory : Memory} {config : Config} {h : Heap σ}
  {live : List Lease}

/-- Over an exact provider, at every point of a session, the heap is well formed, a check gives a
report without complaints, and every call within the rules is answered without a fault. -/
theorem Reach.wellFormed (hP : Segment.Exact P) (hsegment : P segment)
    (hr : Reach segment memory config h live) :
    (∃ blocks, h.arena.Formed blocks) ∧
      (∃ report, h.check = .ok report ∧ report.consistent = true) ∧
      ∀ c : Call, c.Valid live → ∃ answer, (h.serve c).result = .ok answer := by
  obtain ⟨blocks, hh⟩ := hr.held hP hsegment
  refine ⟨⟨blocks, hh.sound.formed⟩, ⟨h.arena.reportOf blocks, hh.sound.check_eq⟩, ?_⟩
  intro c hc
  obtain ⟨answer, h', asked, hruns, _⟩ := hh.serve hP hc
  exact ⟨answer, (h.serve_eq c).1.trans hruns.result⟩

/-- A session over a reservation that splits, clears and moves. -/
theorem Reach.wellFormed_played : ∃ (h : Heap (Reservation .common)) (live : List Lease),
    Heap.session (⟨0x100000, 65536, 0, 4096⟩ : Reservation .common) Reservation.blank Config.standard
      [.allocate 100, .allocateZeroed 4 30, .resize (some 0x100028) 300, .free none] =
        some (h, live) ∧
    (∃ blocks, h.arena.Formed blocks) ∧
    (∃ report, h.check = .ok report ∧ report.consistent = true) ∧
    ∀ c : Call, c.Valid live → ∃ answer, (h.serve c).result = .ok answer := by
  have hplayed : (Heap.session (⟨0x100000, 65536, 0, 4096⟩ : Reservation .common) Reservation.blank
      Config.standard [.allocate 100, .allocateZeroed 4 30, .resize (some 0x100028) 300,
        .free none]).isSome = true := by
    decide +kernel
  obtain ⟨⟨h, live⟩, hs⟩ := Option.isSome_iff_exists.mp hplayed
  have hsegment : (⟨0x100000, 65536, 0, 4096⟩ : Reservation .common).Paged :=
    Reservation.paged_common (by decide)
  exact ⟨h, live, hs, Reach.wellFormed Reservation.exact_paged hsegment (.of_session hs)⟩

end BlockHeap
