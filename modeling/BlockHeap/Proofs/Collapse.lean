import BlockHeap.Proofs.Refusal

/-!
# When nothing is live

Growing and trimming move the end of the segment and the end of the arena by the same number of
bytes. When nothing is live, all blocks have become one free block, and over a reservation, which
takes back whatever it is given, that block went back as far as the floor unless it is below the
threshold.
-/

namespace BlockHeap

variable {sys : System}

lemma joined_lands {pre post : List Piece} {a size stop : Nat}
    (hlands : a + span (pre ++ ⟨size, .allocated⟩ :: post) = stop) :
    a + span (restTail pre) + joined pre size post + span (restHead post) = stop := by
  have hpre := span_restTail pre
  have hpost := span_restHead post
  simp only [span_append, span_cons] at hlands
  unfold joined
  omega

section Ends

variable {σ : Type} [Segment σ] {P : σ → Prop}

namespace Arena

variable {h h' h₁ : Arena σ} {pre post blocks blocks' : List Piece} {a size n count : Nat}
  {r : Option Nat} {asked : List Event}

/-- The end of the segment and the end of the arena moved by the same number of bytes. -/
def Abreast (h h' : Arena σ) : Prop :=
  Segment.stop h'.segment + h.stop = Segment.stop h.segment + h'.stop

lemma Abreast.of_eq (hsegment : Segment.stop h'.segment = Segment.stop h.segment)
    (hstop : h'.stop = h.stop) : h.Abreast h' := by
  unfold Abreast
  rw [hsegment, hstop]

lemma Abreast.trans (hx : h.Abreast h₁) (hy : h₁.Abreast h') : h.Abreast h' := by
  unfold Abreast at *
  omega

/-- Where the chain begins is all that has to be known: nothing says of the arena in the middle of a
move that it starts there. -/
lemma Trimmed.abreast (ht : Trimmed h pre size post h' blocks' asked)
    (hlands : a + span pre + size + span post = h.stop) (hlands' : a + span blocks' = h'.stop) :
    h.Abreast h' := by
  cases ht with
  | kept _ segment stop => exact .of_eq (congrArg _ segment) stop
  | refused _ _ _ _ _ segment stop => exact .of_eq segment stop
  | granted _ last _ above _ segment stop =>
    subst last
    rw [span_append, span_remnant] at hlands'
    rw [span_nil] at hlands
    unfold Abreast
    unfold surplus at segment
    omega

lemma Enlarged.abreast (hP : Segment.Exact P) (hvalid : P h.segment)
    (he : Enlarged h size blocks h' r blocks') : h.Abreast h' := by
  cases he with
  | refused answer arena =>
    rw [arena]
    exact .of_eq (hP.grow_refused _ _ hvalid answer) rfl
  | granted _ segment stop =>
    unfold Abreast
    omega

lemma Enlarged.lands (he : Enlarged h size blocks h' r blocks') (hlands : a + span blocks = h.stop) :
    a + span blocks' = h'.stop := by
  cases he with
  | refused _ arena =>
    rw [arena]
    exact hlands
  | granted _ _ stop =>
    have hspan := span_restTail blocks
    simp only [span_append, span_cons, span_nil]
    omega

lemma Obtained.abreast (hP : Segment.Exact P) (hvalid : P h.segment)
    (ho : Obtained h size blocks h' r blocks' asked) : h.Abreast h' := by
  cases ho with
  | found _ arena =>
    rw [arena]
    exact .of_eq rfl rfl
  | enlarged _ step =>
    have hsearched : P (h.withPlacement (h.searched size blocks)).segment := hvalid
    have henlarged := step.abreast hP hsearched
    exact henlarged

lemma Obtained.lands (ho : Obtained h size blocks h' r blocks' asked)
    (hlands : a + span blocks = h.stop) : a + span blocks' = h'.stop := by
  cases ho with
  | found _ arena =>
    rw [arena]
    exact hlands
  | enlarged _ step => exact step.lands hlands

lemma Allocated.abreast (hP : Segment.Exact P) (hvalid : P h.segment)
    (ha : Allocated h n blocks h' r blocks' asked) : h.Abreast h' := by
  cases ha with
  | empty _ arena | unsized _ arena =>
    rw [arena]
    exact .of_eq rfl rfl
  | missed _ step => exact step.abreast hP hvalid
  | placed _ _ _ step _ arena =>
    have hobtained := step.abreast hP hvalid
    rw [arena]
    exact hobtained

lemma Allocated.lands (ha : Allocated h n blocks h' r blocks' asked)
    (hlands : a + span blocks = h.stop) : a + span blocks' = h'.stop := by
  cases ha with
  | empty _ arena | unsized _ arena =>
    rw [arena]
    exact hlands
  | missed _ step => exact step.lands hlands
  | placed _ _ _ step _ arena =>
    have hobtained := step.lands hlands
    rw [arena, withMemory_stop, ← hobtained]
    simp only [span_append, span_carved, span_cons, Nat.add_assoc]

lemma Zeroed.abreast (hP : Segment.Exact P) (hvalid : P h.segment)
    (hz : Zeroed h count size blocks h' r blocks' asked) : h.Abreast h' := by
  cases hz with
  | overflow _ arena =>
    rw [arena]
    exact .of_eq rfl rfl
  | failed _ step => exact step.abreast hP hvalid
  | cleared _ _ step arena =>
    have hallocated := step.abreast hP hvalid
    rw [arena]
    exact hallocated

lemma Moved.abreast (hP : Segment.Exact P) (hvalid : P h.segment) {b : Nat}
    (hm : Moved h b size n blocks h' r blocks' asked) (hlands : a + span blocks = h.stop)
    (hlands' : a + span blocks' = h'.stop) : h.Abreast h' := by
  cases hm with
  | failed step => exact step.abreast hP hvalid
  | copied h₁ step source release =>
    have hmoved := step.abreast hP hvalid
    exact hmoved.trans (release.abreast (joined_lands (step.lands hlands)) hlands')

lemma Resized.abreast (hP : Segment.Exact P) (hvalid : P h.segment)
    (hr : Resized h pre size post n h' r blocks' asked)
    (hlands : a + span (pre ++ ⟨size, .allocated⟩ :: post) = h.stop)
    (hlands' : a + span blocks' = h'.stop) : h.Abreast h' := by
  cases hr with
  | unsized _ arena | same _ arena =>
    rw [arena]
    exact .of_eq rfl rfl
  | cut _ less step =>
    refine step.abreast ?_ hlands'
    have hpost := span_restHead post
    simp only [span_append, span_cons, span_nil] at hlands ⊢
    omega
  | absorbed _ _ _ segment stop => exact .of_eq (congrArg _ segment) stop
  | moved _ _ step => exact step.abreast hP hvalid hlands hlands'

end Arena

/-- Whatever a call does, both ends move by the same number of bytes. -/
lemma Call.Ends.abreast {h h' : Arena σ} {blocks blocks' : List Piece} {c : Call} {r : Option Nat}
    {asked : List Event} (hP : Segment.Exact P) (hs : h.Sound P blocks)
    (hlands' : h.start + span blocks' = h'.stop) (he : c.Ends h blocks h' r blocks' asked) :
    h.Abreast h' := by
  have hlands := hs.stop_eq
  cases he with
  | allocated step | resizedNull step => exact step.abreast hP hs.valid
  | zeroed step => exact step.abreast hP hs.valid
  | nothing arena =>
    rw [arena]
    exact .of_eq rfl rfl
  | freed chain step | resizedZero chain step =>
    rw [chain] at hlands
    exact step.abreast (joined_lands hlands) hlands'
  | resized chain _ step =>
    rw [chain] at hlands
    exact step.abreast hP hs.valid hlands hlands'

/-- When nothing is allocated, the chain is one free block. -/
lemma Arena.Sound.eq_single {h : Arena σ} {blocks : List Piece} (hs : h.Sound P blocks)
    (hnone : taken h.start blocks = []) : blocks = [⟨h.capacity, .free⟩] := by
  have hlands := hs.stop_eq
  have hcapacity : span blocks = h.capacity := by
    unfold Arena.capacity
    omega
  rw [← hcapacity]
  exact hs.merged.eq_single (fun p hp => hs.chained.tiles.whole hp) hs.ne_nil hnone

/-- When nothing is held, the chain is one free block. -/
lemma Held.eq_single {h : Arena σ} {blocks : List Piece} (hh : Held P h [] blocks) :
    blocks = [⟨h.capacity, .free⟩] :=
  hh.sound.eq_single hh.leases.symm.eq_nil

variable {segment : σ} {memory : Memory} {config : Config} {h₀ h : Heap σ} {live : List Lease}
  {log : List Record}

/-- At every point of a session, both ends are as far from where they were in the new heap. -/
lemma Reach.abreast (hP : Segment.Exact P) (hsegment : P segment)
    (made : Heap.create segment memory config = .ok (h₀, log))
    (hr : Reach segment memory config h live) :
    h₀.arena.Abreast h.arena ∧
      Segment.start h.arena.segment = Segment.start h₀.arena.segment := by
  induction hr with
  | create made' =>
    obtain ⟨rfl, _⟩ := Prod.mk.inj (Except.ok.inj (made.symm.trans made'))
    exact ⟨.of_eq rfl rfl, rfl⟩
  | @serve h live answer c before valid served ih =>
    obtain ⟨blocks, hh⟩ := before.held hP hsegment
    obtain ⟨asked, blocks', hruns, hh', hakin, hends⟩ := hh.served_ends hP valid served
    have hlands := hh'.sound.stop_eq
    rw [hakin.start] at hlands
    exact ⟨ih.1.trans (hends.abreast hP hh.sound hlands), hruns.base.trans ih.2⟩
  | write a count f _ _ _ _ ih => exact ih

end Ends

section Reservation

lemma Reservation.shrink_granted {r : Reservation sys} {n : Nat} (m : Memory) (h : n ≤ r.committed) :
    (Segment.shrink n r m).refusal = none := by
  simp only [Segment.shrink]
  rw [if_neg (Nat.not_lt_of_le h)]

/-- The arena ends where it ended when it was made, or is smaller than what trimming asks for. -/
def Arena.Resting {σ : Type} (h : Arena σ) : Prop :=
  h.stop = h.floor ∨ h.capacity < h.shrinkThreshold

namespace Arena

variable {h h' : Arena (Reservation sys)} {pre post blocks blocks' : List Piece} {size n : Nat}
  {asked : List Event}

lemma Near.resting (hn : Near h.start h h') (hh : h.Resting) : h'.Resting := by
  cases hn with
  | same => exact hh
  | parked => exact hh

/-- A reservation takes back what a block of the arena gives back. -/
lemma Sound.shrink_granted {P : Reservation sys → Prop} {block : Nat} (m : Memory)
    (hs : h.Sound P blocks) (hlow : h.start ≤ block) (hhigh : block + size ≤ h.stop) :
    (Segment.shrink (h.surplus block size) h.segment m).refusal = none := by
  have hstop := hs.stop_le
  have hbase := hs.base_lt
  have hcommitted : Segment.stop h.segment = Segment.start h.segment + h.segment.committed := rfl
  refine Reservation.shrink_granted m ?_
  unfold surplus
  simp only [wordSize] at hstop
  omega

/-- A block that is released and then is all that is left went back as far as the floor, unless it is
small. -/
lemma Trimmed.resting {P : Reservation sys → Prop} (hs : h.Sound P blocks) (hakin : h.Akin h')
    (ht : Trimmed h pre size post h' [⟨h'.capacity, .free⟩] asked)
    (hpre : ∀ p ∈ pre.getLast?, p.status = .allocated)
    (hlands : h.start + span pre + size + span post = h.stop) : h'.Resting := by
  unfold Resting
  rw [hakin.floor, hakin.shrinkThreshold]
  generalize hchain : [(⟨h'.capacity, .free⟩ : Piece)] = blocks' at ht
  cases ht with
  | kept idle segment stop =>
    obtain ⟨rfl, hsingle⟩ | ⟨_, hnone⟩ := List.append_eq_singleton_iff.mp hchain.symm
    · obtain ⟨hsize, rfl⟩ := List.cons.inj hsingle
      obtain ⟨hcapacity, _⟩ := Piece.mk.inj hsize
      rw [← hcapacity, stop]
      rcases idle with hpost | hsmall | hfloor
      · exact absurd rfl hpost
      · exact Or.inr hsmall
      · exact Or.inl hfloor.symm
    · exact absurd hnone (List.cons_ne_nil _ _)
  | refused m _ _ _ answer =>
    exact absurd (hs.shrink_granted m (Nat.le_add_right _ _) (by omega)) answer
  | granted m _ _ _ _ _ stop =>
    have hfloor := hs.start_lt
    obtain ⟨rfl, _⟩ | ⟨rfl, _⟩ := List.append_eq_singleton_iff.mp hchain.symm
    · rw [span_nil, Nat.add_zero] at stop
      left
      omega
    · exact absurd (hpre _ rfl) nofun

end Arena

/-- A call that answers no payload either leaves all but the cursor as it is, or releases a block. -/
lemma Call.Ends.near_or_trimmed {P : Reservation sys → Prop} {h h' : Arena (Reservation sys)}
    {blocks blocks' : List Piece} {c : Call} {asked : List Event} (hs : h.Sound P blocks)
    (he : c.Ends h blocks h' none blocks' asked) (live : List Lease) :
    (Arena.Near h.start h h' ∧ c.settle live none = live) ∨
      ∃ pre size post, blocks = pre ++ ⟨size, .allocated⟩ :: post ∧
        Arena.Trimmed h (restTail pre) (joined pre size post) (restHead post) h' blocks' asked := by
  cases he with
  | allocated step | resizedNull step =>
    exact Or.inl ⟨step.refused_near hs, Call.settle_null rfl live⟩
  | zeroed step => exact Or.inl ⟨step.refused_near hs, Call.settle_null rfl live⟩
  | nothing arena =>
    rw [arena]
    exact Or.inl ⟨.same, Call.settle_null rfl live⟩
  | freed chain step | resizedZero chain step => exact Or.inr ⟨_, _, _, chain, step⟩
  | resized chain pos step =>
    subst chain
    exact Or.inl ⟨step.refused_near hs, Call.settle_refused (c := .resize _ _) pos live⟩

variable {segment : Reservation sys} {memory : Memory} {config : Config}
  {h₀ h : Heap (Reservation sys)} {live : List Lease} {log : List Record}

/-- Whenever a session comes to hold nothing, its arena rests. -/
lemma Reach.resting (hsegment : segment.Paged) (hr : Reach segment memory config h live)
    (hnone : live = []) : h.arena.Resting := by
  induction hr with
  | create made =>
    obtain ⟨events, hmade⟩ := Heap.create_ok made
    exact Or.inl (Arena.create_sound Reservation.exact_paged.loose hsegment hmade).2.symm
  | @serve h live answer c before valid served ih =>
    obtain ⟨blocks, hh⟩ := before.held Reservation.exact_paged hsegment
    obtain ⟨asked, blocks', _, hh', hakin, hends⟩ :=
      hh.served_ends Reservation.exact_paged valid served
    obtain rfl : answer = none := by
      cases answer with
      | none => rfl
      | some p => exact absurd hnone (List.cons_ne_nil _ _)
    rcases hends.near_or_trimmed hh.sound live with ⟨hnear, hsettled⟩ | ⟨pre, size, post, rfl, htrimmed⟩
    · rw [hsettled] at hnone
      exact hnear.resting (ih hnone)
    · rw [hnone] at hh'
      rw [hh'.eq_single] at htrimmed
      exact htrimmed.resting hh.sound hakin hh.sound.merged.sides.1.restTail.2
        (joined_lands hh.sound.stop_eq)
  | write a count f _ _ _ _ ih => exact ih hnone

/-- Over a reservation, at every point of a session, the capacity is at least that of the new heap,
and as many committed bytes lie outside the blocks as in the new heap. When nothing is held, the chain
is one free block, and either as many bytes are committed as for the new heap or the block is below
the threshold. -/
theorem Reach.collapsed (hsegment : segment.Paged)
    (made : Heap.create segment memory config = .ok (h₀, log))
    (hr : Reach segment memory config h live) :
    (live = [] → h.arena.Formed [⟨h.arena.capacity, .free⟩] ∧
      (h.arena.capacity = h₀.arena.capacity ∧
          Segment.committed h.arena.segment = Segment.committed h₀.arena.segment ∨
        h.arena.capacity < config.shrinkThreshold)) ∧
      h₀.arena.capacity ≤ h.arena.capacity ∧
      h.arena.capacity ≤ Segment.committed h.arena.segment ∧
      Segment.committed h.arena.segment - h.arena.capacity =
        Segment.committed h₀.arena.segment - h₀.arena.capacity := by
  obtain ⟨blocks, hh⟩ := hr.held Reservation.exact_paged hsegment
  obtain ⟨habreast, hbase⟩ := hr.abreast Reservation.exact_paged hsegment made
  obtain ⟨h₁, _, made₁, hakin⟩ := hr.made Reservation.exact_paged hsegment
  obtain ⟨rfl, _⟩ := Prod.mk.inj (Except.ok.inj (made₁.symm.trans made))
  obtain ⟨events, hmade⟩ := Heap.create_ok made
  obtain ⟨_, hfloor⟩ := Arena.create_sound Reservation.exact_paged.loose hsegment hmade
  obtain ⟨_, _, hthreshold⟩ := Arena.create_settings Reservation.exact_paged.loose hsegment hmade
  have hstart := hakin.start
  have hends : Segment.stop h.arena.segment =
    Segment.start h.arena.segment + Segment.committed h.arena.segment := rfl
  have hends₁ : Segment.stop h₁.arena.segment =
    Segment.start h₁.arena.segment + Segment.committed h₁.arena.segment := rfl
  have hlow := hh.sound.start_lt
  have hle := hh.sound.floor_le
  have hstop := hh.sound.stop_le
  have hbelow := hh.sound.base_lt
  rw [hakin.floor, hfloor] at hlow hle
  unfold Arena.Abreast at habreast
  unfold Arena.capacity
  simp only [minBlockSize, wordSize] at hlow hstop
  refine ⟨?_, by omega, by omega, by omega⟩
  rintro rfl
  refine ⟨?_, ?_⟩
  · have hformed := hh.sound.formed
    rwa [hh.eq_single] at hformed
  · rcases hr.resting hsegment rfl with hfirst | hsmall
    · rw [hakin.floor, hfloor] at hfirst
      left
      omega
    · right
      rwa [hakin.shrinkThreshold, hthreshold] at hsmall

/-- A heap that grew by one chunk and whose payloads were freed again, the first one first; below the
threshold, it keeps what it grew by. -/
theorem Reach.collapsed_played : ∃ (h₀ h : Heap (Reservation .common)) (log : List Record),
    Heap.create (⟨0x100000, 65536, 0, 4096⟩ : Reservation .common) Reservation.blank
      ⟨.bestFit, 1024, 4096, .off⟩ = .ok (h₀, log) ∧
    h₀.play [] [.allocate 944, .allocate 500, .allocate 100, .free (some 0x100028),
      .resize (some 0x1003e8) 0, .free (some 0x100608)] = some (h, []) ∧
    (h₀.arena.capacity, h.arena.capacity) = (960, 1984) ∧
    (([] : List Lease) = [] → h.arena.Formed [⟨h.arena.capacity, .free⟩] ∧
      (h.arena.capacity = h₀.arena.capacity ∧
          Segment.committed h.arena.segment = Segment.committed h₀.arena.segment ∨
        h.arena.capacity < 4096)) ∧
      h₀.arena.capacity ≤ h.arena.capacity ∧
      h.arena.capacity ≤ Segment.committed h.arena.segment ∧
      Segment.committed h.arena.segment - h.arena.capacity =
        Segment.committed h₀.arena.segment - h₀.arena.capacity := by
  have hplayed : (Heap.create (⟨0x100000, 65536, 0, 4096⟩ : Reservation .common) Reservation.blank
      ⟨.bestFit, 1024, 4096, .off⟩).toOption.map (fun made =>
        (made.1.arena.capacity, (made.1.play [] [.allocate 944, .allocate 500, .allocate 100,
          .free (some 0x100028), .resize (some 0x1003e8) 0, .free (some 0x100608)]).map
            fun s => (s.2, s.1.arena.capacity))) = some (960, some ([], 1984)) := by
    decide +kernel
  obtain ⟨⟨h₀, log⟩, hmade, hfacts⟩ := Option.map_eq_some_iff.mp hplayed
  obtain ⟨hbefore, hfacts⟩ := Prod.mk.inj hfacts
  obtain ⟨⟨h, live⟩, hs, hfacts⟩ := Option.map_eq_some_iff.mp hfacts
  obtain ⟨rfl, hafter⟩ := Prod.mk.inj hfacts
  have made := ok_of_toOption hmade
  have hsegment : (⟨0x100000, 65536, 0, 4096⟩ : Reservation .common).Paged :=
    Reservation.paged_common (by decide)
  exact ⟨h₀, h, log, made, hs, Prod.ext hbefore hafter,
    Reach.collapsed hsegment made ((Reach.create made).play hs)⟩

end Reservation
end BlockHeap
