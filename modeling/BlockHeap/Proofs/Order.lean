import BlockHeap.Proofs.Collapse

/-!
# The order of frees

Merged blocks are known by the allocated ones among them, but for a free block at the end. Which
blocks are allocated after some payloads were freed does not depend on the order, so neither do the
blocks up to the last allocated one. How much of what is free after it went back to the provider may
depend on it.
-/

namespace BlockHeap

variable {σ : Type} [Segment σ] {P : σ → Prop}

/-- The calls that free these payloads one after the other. -/
def Call.frees (order : List Nat) : List Call :=
  order.map fun p => .free (some p)

lemma Call.settle_free (p : Nat) (live : List Lease) :
    (Call.free (some p)).settle live none = live.filter fun l => l.payload ≠ p := by
  change live.filter (fun l => some l.payload ≠ some p) = _
  simp only [ne_eq, Option.some.injEq]

namespace Held

variable {h : Heap σ} {live : List Lease} {blocks : List Piece}

/-- A lease that is freed is gone, and no other. -/
lemma freed (hP : Segment.Exact P) (hh : Held P h.arena live blocks) {p : Nat}
    (hp : p ∈ live.map Lease.payload) :
    (h.serve (.free (some p))).result = .ok none ∧
      h.arena.Akin (h.serve (.free (some p))).state.arena ∧
      ∃ blocks', Held P (h.serve (.free (some p))).state.arena
        (live.filter fun l => l.payload ≠ p) blocks' := by
  have hvalid := Call.valid_free hp
  have hanswer := hh.free_answers hP hvalid
  have hserved := hh.served hP hvalid hanswer
  refine ⟨hanswer, hserved.akin, ?_⟩
  rw [← Call.settle_free]
  exact hserved.held

/-- Payloads that are held can be freed in any order; the other leases stay. -/
theorem frees (hP : Segment.Exact P) (hh : Held P h.arena live blocks) {order : List Nat}
    (hsub : order ⊆ live.map Lease.payload) (hnodup : order.Nodup) :
    ∃ h' blocks', h.play live (Call.frees order) =
        some (h', live.filter fun l => l.payload ∉ order) ∧
      h.arena.Akin h'.arena ∧
      Held P h'.arena (live.filter fun l => l.payload ∉ order) blocks' := by
  induction order generalizing h live blocks with
  | nil =>
    have hall : (live.filter fun l => l.payload ∉ ([] : List Nat)) = live :=
      List.filter_eq_self.mpr fun l _ => by simp
    rw [hall]
    exact ⟨h, blocks, rfl, .refl _, hh⟩
  | cons p rest ih =>
    obtain ⟨hother, hnodup⟩ := List.nodup_cons.mp hnodup
    have hp := hsub List.mem_cons_self
    obtain ⟨hresult, hakin, blocks₁, hh₁⟩ := hh.freed hP hp
    have hsub₁ : rest ⊆ (live.filter fun l => l.payload ≠ p).map Lease.payload := by
      intro q hq
      obtain ⟨l, hl, rfl⟩ := List.mem_map.mp (hsub (List.mem_cons_of_mem _ hq))
      refine List.mem_map_of_mem (List.mem_filter.mpr ⟨hl, ?_⟩)
      simp only [ne_eq, decide_not, Bool.not_eq_eq_eq_not, Bool.not_true, decide_eq_false_iff_not]
      rintro rfl
      exact hother hq
    obtain ⟨h', blocks', hplay, hakin', hh'⟩ := ih hh₁ hsub₁ hnodup
    have hfilter : ((live.filter fun l => l.payload ≠ p).filter fun l => l.payload ∉ rest) =
        live.filter fun l => l.payload ∉ p :: rest := by
      rw [List.filter_filter]
      refine List.filter_congr fun l _ => ?_
      simp [Bool.and_comm]
    rw [hfilter] at hplay hh'
    refine ⟨h', blocks', ?_, hakin.trans hakin', hh'⟩
    unfold Call.frees Heap.play
    rw [List.map_cons]
    simp only [if_pos (Call.valid_free hp), hresult, Call.settle_free]
    exact hplay

/-- Which blocks are allocated is known by the leases alone. -/
lemma taken_eq {h₁ h₂ : Arena σ} {live₁ live₂ : List Lease} {blocks₁ blocks₂ : List Piece}
    (hh₁ : Held P h₁ live₁ blocks₁) (hh₂ : Held P h₂ live₂ blocks₂) (hlive : live₁.Perm live₂) :
    taken h₁.start blocks₁ = taken h₂.start blocks₂ := by
  have hperm := hh₁.leases.symm.trans ((hlive.map Lease.block).trans hh₂.leases)
  refine hperm.eq_of_pairwise ?_ (taken_pairwise _ _) (taken_pairwise _ _)
  rintro ⟨b, n⟩ ⟨c, k⟩ _ _ hbc hcb
  simp only at hbc hcb
  exact Prod.ext (by simp only; omega) (by simp only; omega)

end Held

variable {segment : σ} {memory : Memory} {config : Config} {h : Heap σ} {live : List Lease}

/-- Over an exact provider, at every point of a session, some of the payloads that are held can be
freed in any two orders. Both leave the blocks of the other payloads allocated, the same blocks up to
the last allocated one, and after it at most one free block; if no payload is left, both leave a single
free block. -/
theorem Reach.free_order (hP : Segment.Exact P) (hsegment : P segment)
    (hr : Reach segment memory config h live) {order order' : List Nat}
    (hsub : order ⊆ live.map Lease.payload) (hnodup : order.Nodup) (hperm : order.Perm order') :
    ∃ h₁ h₂ blocks₁ blocks₂ common k₁ k₂,
      h.play live (Call.frees order) = some (h₁, live.filter fun l => l.payload ∉ order) ∧
      h.play live (Call.frees order') = some (h₂, live.filter fun l => l.payload ∉ order) ∧
      h₁.arena.start = h₂.arena.start ∧ h₁.arena.Formed blocks₁ ∧ h₂.arena.Formed blocks₂ ∧
      ((live.filter fun l => l.payload ∉ order).map Lease.block).Perm
        (taken h₁.arena.start blocks₁) ∧
      taken h₁.arena.start blocks₁ = taken h₂.arena.start blocks₂ ∧
      blocks₁ = common ++ remnant k₁ ∧ blocks₂ = common ++ remnant k₂ ∧
      (∀ p ∈ common.getLast?, p.status = .allocated) ∧
      ((live.filter fun l => l.payload ∉ order) = [] →
        blocks₁ = [⟨h₁.arena.capacity, .free⟩] ∧ blocks₂ = [⟨h₂.arena.capacity, .free⟩]) := by
  obtain ⟨blocks, hh⟩ := hr.held hP hsegment
  have hsub' : order' ⊆ live.map Lease.payload := fun p hp => hsub (hperm.mem_iff.mpr hp)
  have hlive : (live.filter fun l => l.payload ∉ order') = live.filter fun l => l.payload ∉ order := by
    refine List.filter_congr fun l _ => ?_
    exact decide_eq_decide.mpr (not_congr hperm.symm.mem_iff)
  obtain ⟨h₁, blocks₁, hplay₁, hakin₁, hh₁⟩ := hh.frees hP hsub hnodup
  obtain ⟨h₂, blocks₂, hplay₂, hakin₂, hh₂⟩ := hh.frees hP hsub' (hperm.nodup_iff.mp hnodup)
  rw [hlive] at hplay₂ hh₂
  have hstart := hakin₁.start.trans hakin₂.start.symm
  have htaken := hh₁.taken_eq hh₂ (.refl _)
  have hwhole₁ : ∀ p ∈ blocks₁, p.Whole := fun p hp => hh₁.sound.chained.tiles.whole hp
  have hwhole₂ : ∀ p ∈ blocks₂, p.Whole := fun p hp => hh₂.sound.chained.tiles.whole hp
  have hcommon₁ := hh₁.sound.merged.restTail_eq h₁.arena.start hwhole₁
  have hcommon₂ := hh₂.sound.merged.restTail_eq h₂.arena.start hwhole₂
  -- both chains without what is free at the end are rebuilt from the same allocated blocks
  have hsame : restTail blocks₂ = restTail blocks₁ := by rw [hcommon₁, hcommon₂, htaken, hstart]
  refine ⟨h₁, h₂, blocks₁, blocks₂, restTail blocks₁, freeTail blocks₁, freeTail blocks₂, hplay₁,
    hplay₂, hstart, hh₁.sound.formed, hh₂.sound.formed, hh₁.leases, htaken,
    (restTail_remnant hwhole₁).symm, ?_, hh₁.sound.merged.restTail.2, fun hleft => ?_⟩
  · rw [← hsame, restTail_remnant hwhole₂]
  · have hleases := hh₁.leases
    rw [hleft, List.map_nil] at hleases
    have hnone := hleases.nil_eq.symm
    exact ⟨hh₁.sound.eq_single hnone, hh₂.sound.eq_single (htaken.symm.trans hnone)⟩

/-- Two blocks above the floor: if the large one at the end is freed first, it goes back alone and the
other one stays as a free block that is too small to go back; in the other order both go back. The
block before them stays allocated. -/
theorem Reach.free_order_played : ∃ (h : Heap (Reservation .common)) (live : List Lease),
    Heap.session (⟨0x100000, 65536, 0, 4096⟩ : Reservation .common) Reservation.blank Config.standard
      [.allocate 944, .allocate 500, .allocate 1000] = some (h, live) ∧
    (h.play live (Call.frees [0x1003e8, 0x100608])).map (fun s => s.1.arena.capacity) = some 960 ∧
    (h.play live (Call.frees [0x100608, 0x1003e8])).map (fun s => s.1.arena.capacity) = some 1504 ∧
    ∃ h₁ h₂ blocks₁ blocks₂ common k₁ k₂,
      h.play live (Call.frees [0x1003e8, 0x100608]) = some (h₁, [⟨0x100028, 944⟩]) ∧
      h.play live (Call.frees [0x100608, 0x1003e8]) = some (h₂, [⟨0x100028, 944⟩]) ∧
      h₁.arena.Formed blocks₁ ∧ h₂.arena.Formed blocks₂ ∧
      taken h₁.arena.start blocks₁ = [(0x100020, 960)] ∧
      taken h₂.arena.start blocks₂ = [(0x100020, 960)] ∧
      blocks₁ = common ++ remnant k₁ ∧ blocks₂ = common ++ remnant k₂ ∧
      ∀ p ∈ common.getLast?, p.status = .allocated := by
  have hplayed : (Heap.session (⟨0x100000, 65536, 0, 4096⟩ : Reservation .common) Reservation.blank
      Config.standard [.allocate 944, .allocate 500, .allocate 1000]).map (fun s =>
        (s.2, (s.1.play s.2 (Call.frees [0x1003e8, 0x100608])).map (fun s => s.1.arena.capacity),
          (s.1.play s.2 (Call.frees [0x100608, 0x1003e8])).map (fun s => s.1.arena.capacity))) =
      some ([⟨0x100608, 1000⟩, ⟨0x1003e8, 500⟩, ⟨0x100028, 944⟩], some 960, some 1504) := by
    decide +kernel
  obtain ⟨⟨h, live⟩, hs, hfacts⟩ := Option.map_eq_some_iff.mp hplayed
  obtain ⟨rfl, hfacts⟩ := Prod.mk.inj hfacts
  obtain ⟨hfirst, hsecond⟩ := Prod.mk.inj hfacts
  have hsegment : (⟨0x100000, 65536, 0, 4096⟩ : Reservation .common).Paged :=
    Reservation.paged_common (by decide)
  have hperm : [0x1003e8, 0x100608].Perm [0x100608, 0x1003e8] := List.Perm.swap _ _ _
  obtain ⟨h₁, h₂, blocks₁, blocks₂, common, k₁, k₂, hplay₁, hplay₂, _, hformed₁, hformed₂, hleases,
    htaken, hblocks₁, hblocks₂, hlast, _⟩ := Reach.free_order Reservation.exact_paged hsegment
      (.of_session hs) (by decide) (by decide) hperm
  have hkept : taken h₁.arena.start blocks₁ = [(0x100020, 960)] := List.perm_singleton.mp hleases.symm
  exact ⟨h, _, hs, hfirst, hsecond, h₁, h₂, blocks₁, blocks₂, common, k₁, k₂, hplay₁, hplay₂,
    hformed₁, hformed₂, hkept, htaken.symm.trans hkept, hblocks₁, hblocks₂, hlast⟩

end BlockHeap
