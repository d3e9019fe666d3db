import BlockHeap.Proofs.Integrity

/-!
# Merging a freed block

A block that is freed becomes one free block together with the free blocks on both sides of it. If
that one is the last, has as many bytes as the threshold says, and reaches above the floor, the
provider is asked once to take back what lies above the floor; if it agrees, the arena ends there.
Nothing else of the chain changes, and if the provider does not agree nothing else changes at all.
-/

namespace BlockHeap

variable {σ : Type}

lemma Arena.surplus_eq (h : Arena σ) (block size : Nat) :
    h.surplus block size = block + size - max h.floor block := by
  unfold surplus
  omega

variable [Segment σ]

namespace Arena

variable {P : σ → Prop} {h : Arena σ} {pre post : List Piece} {size : Nat}

/-- What a free block gives back is what lies above the floor, if it is the last one, if it is large
enough, and if the provider takes it. -/
lemma Sound.trim_ends (hP : Segment.Exact P) (hs : h.Sound P (pre ++ ⟨size, .free⟩ :: post)) :
    let block := h.start + span pre
    let bytes := block + size - max h.floor block
    let answer := Segment.shrink bytes h.segment h.memory
    ∃ h' asked, Action.Runs (trim block size) h () h' asked ∧
      (¬(block + size = h.stop ∧ h.shrinkThreshold ≤ size ∧ h.floor < block + size) →
        asked = [] ∧ h' = h) ∧
      (block + size = h.stop → h.shrinkThreshold ≤ size → h.floor < block + size →
        asked = [.shrink bytes] ∧
        (answer.refusal ≠ none → h' = h.answered answer ∧
          h'.Formed (pre ++ ⟨size, .free⟩ :: post) ∧
          Segment.stop h'.segment = Segment.stop h.segment) ∧
        (answer.refusal = none → h'.Formed (pre ++ remnant (h.floor - block)) ∧
          h'.stop + bytes = h.stop ∧
          Segment.stop h'.segment + bytes = Segment.stop h.segment)) := by
  intro block bytes answer
  have hlast : block + size = h.stop ↔ post = [] := hs.toLaid.last_iff
  have hbytes : h.surplus block size = bytes := h.surplus_eq block size
  rcases hs.trim_cases with hidle | ⟨rfl, hlarge, habove⟩
  · refine ⟨h, [], trim_idle_runs hs.toLaid hidle, fun _ => ⟨rfl, rfl⟩, ?_⟩
    intro hend hlarge habove
    rcases hidle with hpost | hsmall | hfloor
    · exact absurd (hlast.mp hend) hpost
    · omega
    · omega
  · have hend := hlast.mpr rfl
    rw [← hend] at habove
    by_cases hanswer : answer.refusal = none
    · obtain ⟨h', ⟨hruns, hsound, _, _⟩, hreach, hstop, _⟩ :=
        trim_granted_leads hP hs hlarge (by omega) (by rwa [hbytes])
      rw [hbytes] at hruns hreach
      refine ⟨h', _, hruns, fun hidle => absurd ⟨hend, hlarge, habove⟩ hidle,
        fun _ _ _ => ⟨rfl, fun hrefused => absurd hanswer hrefused, fun _ => ⟨hsound.formed, ?_, hreach⟩⟩⟩
      omega
    · obtain ⟨⟨hruns, hsound, _, _⟩, hreach⟩ :=
        trim_refused_leads hP hs hlarge (by omega) (by rwa [hbytes])
      rw [hbytes] at hruns hsound hreach
      exact ⟨_, _, hruns, fun hidle => absurd ⟨hend, hlarge, habove⟩ hidle,
        fun _ _ _ => ⟨rfl, fun _ => ⟨rfl, hsound.formed, hreach⟩,
          fun hgranted => absurd hgranted hanswer⟩⟩

end Arena

variable {P : σ → Prop} {segment : σ} {memory : Memory} {config : Config} {h : Heap σ}
  {live : List Lease}

/-- Over an exact provider, the block of a live payload becomes, when that is freed, one free block
together with the free blocks right before and right after it. Nothing else happens, and the provider
is not asked, unless that block is the last one, reaches the threshold, and ends above the floor. Then
the provider is asked once, for what of the block lies above the floor. If it refuses, nothing else
happens; if it agrees, the arena and the segment end that much lower, and of the block remains what
lies below the floor. -/
theorem Reach.free_merges (hP : Segment.Exact P) (hsegment : P segment)
    (hr : Reach segment memory config h live) {l : Lease} (hl : l ∈ live) :
    let after := h.serve (.free (some l.payload))
    let asked := Event.requests (Arena.free (some l.payload) h.arena).events
    ∃ pre old post merged, h.arena.Formed (pre ++ ⟨old, .allocated⟩ :: post) ∧
      l.payload = h.arena.start + span pre + wordSize ∧ after.result = .ok none ∧
      let first := h.arena.start + span (restTail pre)
      let size := old + freeTail pre + freeHead post
      let bytes := first + size - max h.arena.floor first
      let answer := Segment.shrink bytes h.arena.segment merged.memory
      merged.Formed (restTail pre ++ ⟨size, .free⟩ :: restHead post) ∧
      merged.start = h.arena.start ∧ merged.stop = h.arena.stop ∧ merged.segment = h.arena.segment ∧
      after.state.arena.start = h.arena.start ∧
      (¬(first + size = h.arena.stop ∧ config.shrinkThreshold ≤ size ∧ h.arena.floor < first + size) →
        asked = [] ∧ after.state.arena = merged) ∧
      (first + size = h.arena.stop → config.shrinkThreshold ≤ size → h.arena.floor < first + size →
        asked = [.shrink bytes] ∧
        (answer.refusal ≠ none → after.state.arena = merged.answered answer ∧
          after.state.arena.Formed (restTail pre ++ ⟨size, .free⟩ :: restHead post) ∧
          Segment.stop after.state.arena.segment = Segment.stop h.arena.segment) ∧
        (answer.refusal = none →
          after.state.arena.Formed (restTail pre ++ remnant (h.arena.floor - first)) ∧
          after.state.arena.stop + bytes = h.arena.stop ∧
          Segment.stop after.state.arena.segment + bytes = Segment.stop h.arena.segment ∧
          after.state.arena.memory.word after.state.arena.stop = Tag.sentinel.bits)) := by
  intro after asked
  obtain ⟨blocks, hh⟩ := hr.held hP hsegment
  obtain ⟨pre, post, rfl, hat⟩ := hh.split hl
  obtain ⟨_, _, hthreshold⟩ := hr.settings hP hsegment
  obtain ⟨merged, hgather, hs, hakin, hsame, hstop, _⟩ := Arena.gather_runs hh.sound
  obtain ⟨h', requests, htrim, hidle, htrims⟩ := hs.trim_ends hP
  rw [hakin.start, hakin.floor, hakin.shrinkThreshold, hthreshold, hstop] at hidle htrims
  rw [hsame] at htrims
  rw [hakin.start] at htrim
  unfold joined at hidle htrims hs
  have hfree := hh.sound.toLaid.free_releases (by
    rw [Arena.release_eq]
    exact hgather.andThen htrim)
  rw [← hat] at hfree
  have hserves : Action.Runs (Call.free (some l.payload)).action h.arena none h' requests :=
    hfree.thenQuiet (Action.Runs.pure _ _)
  obtain ⟨hresult, hserved⟩ := h.serve_eq (.free (some l.payload))
  have hafter : after.state.arena = h' := by
    change (h.serve (.free (some l.payload))).state.arena = h'
    rw [hserved, hserves.arena]
  have hasked : asked = requests := hfree.requests
  refine ⟨pre, Block.leastSize l.size, post, merged, hh.sound.formed, hat,
    hresult.trans hserves.result, ?_⟩
  intro first size bytes answer
  rw [hafter, hasked]
  refine ⟨hs.formed, hakin.start, hstop, hsame, hserves.start, hidle, fun hend hlarge habove => ?_⟩
  obtain ⟨hrequest, hrefused, hgranted⟩ := htrims hend hlarge habove
  refine ⟨hrequest, hrefused, fun hanswer => ?_⟩
  obtain ⟨hformed, hlower, hreach⟩ := hgranted hanswer
  exact ⟨hformed, hlower, hreach, hformed.after⟩

/-- The last two blocks are merged; the floor lies inside of what they become. -/
theorem Reach.free_merges_trimmed : ∃ (h : Heap (Reservation .common)) (live : List Lease),
    Heap.session (⟨0x100000, 65536, 0, 4096⟩ : Reservation .common) Reservation.blank Config.standard
      [.allocate 100, .allocate 5000] = some (h, live) ∧
    h.arena.Formed [⟨128, .allocated⟩, ⟨5024, .allocated⟩, ⟨832, .free⟩] ∧
    (h.serve (.free (some 0x1000a8))).result = .ok none ∧
    Event.requests (Arena.free (some 0x1000a8) h.arena).events = [.shrink 5024] ∧
    (h.serve (.free (some 0x1000a8))).state.arena.Formed [⟨128, .allocated⟩, ⟨832, .free⟩] := by
  have hplayed : (Heap.session (⟨0x100000, 65536, 0, 4096⟩ : Reservation .common) Reservation.blank
      Config.standard [.allocate 100, .allocate 5000]).map (fun s => (s.2, s.1.arena.segment,
        [s.1.arena.start, s.1.arena.stop, s.1.arena.floor], decide (s.1.arena.Linked
          [⟨128, .allocated⟩, ⟨5024, .allocated⟩, ⟨832, .free⟩]))) =
      some ([⟨0x1000a8, 5000⟩, ⟨0x100028, 100⟩], ⟨0x100000, 65536, 6048, 4096⟩,
        [0x100020, 0x101780, 0x1003e0], true) := by
    decide +kernel
  obtain ⟨⟨h, live⟩, hs, hfacts⟩ := Option.map_eq_some_iff.mp hplayed
  simp only [Prod.mk.injEq, List.cons.injEq, and_true, decide_eq_true_eq] at hfacts
  obtain ⟨rfl, hcommitted, ⟨hstart, hstop, hfloor⟩, hl⟩ := hfacts
  have hsegment : (⟨0x100000, 65536, 0, 4096⟩ : Reservation .common).Paged :=
    Reservation.paged_common (by decide)
  obtain ⟨pre, old, post, merged, hformed, hat, hresult, _, _, _, _, _, _, htrims⟩ :=
    Reach.free_merges Reservation.exact_paged hsegment (Reach.of_session hs)
      (l := ⟨0x1000a8, 5000⟩) (by simp)
  have hblocks : pre ++ ⟨old, .allocated⟩ :: post =
      [⟨128, .allocated⟩] ++ ⟨5024, .allocated⟩ :: [⟨832, .free⟩] :=
    hformed.eq_of_linked hl
  rw [hblocks] at hformed
  -- the payload's block is the second one
  obtain ⟨rfl, hpiece, rfl⟩ := split_unique (by rw [hblocks]; decide) hblocks (by
    rw [hstart] at hat
    simp only [wordSize, span_cons, span_nil] at hat ⊢
    omega)
  obtain ⟨rfl, _⟩ := Piece.mk.inj hpiece
  rw [hstart, hstop, hfloor, hcommitted] at htrims
  obtain ⟨hasked, _, hgranted⟩ := htrims rfl (by decide) (by decide)
  exact ⟨h, _, hs, hformed, hresult, hasked, (hgranted rfl).1⟩

end BlockHeap
