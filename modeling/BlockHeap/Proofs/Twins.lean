import BlockHeap.Proofs.Coupling

/-!
# Twin arenas

Two sound arenas are twins if they have the same chain, bounds, settings and placement and their
segments the same break. Their bytes may differ, and so may their providers. As far as the segments
of twins answer alike, an operation asks both for the same, gives the same result and leaves twins.
-/

namespace BlockHeap

open BlockHeap.Action (Built Coupled)

variable {σ τ : Type} [Segment σ] [Segment τ]

namespace Arena

variable {P : σ → Prop} {Q : τ → Prop} {h h' : Arena σ} {k k' : Arena τ}
  {pre post blocks : List Piece} {size n : Nat}

/-- The arenas differ at most in their bytes and in what their providers know besides the break. -/
structure Alike (h : Arena σ) (k : Arena τ) : Prop where
  start : k.start = h.start
  stop : k.stop = h.stop
  floor : k.floor = h.floor
  chunkSize : k.chunkSize = h.chunkSize
  shrinkThreshold : k.shrinkThreshold = h.shrinkThreshold
  placement : k.placement = h.placement
  base : Segment.start k.segment = Segment.start h.segment
  reach : Segment.stop k.segment = Segment.stop h.segment

structure Twins (P : σ → Prop) (Q : τ → Prop) (h : Arena σ) (k : Arena τ) (blocks : List Piece) :
    Prop where
  left : h.Sound P blocks
  right : k.Sound Q blocks
  alike : Alike h k

/-- The arenas are twins, with some chain. -/
def Together (P : σ → Prop) (Q : τ → Prop) {α : Type} (_ : α) (h : Arena σ) (k : Arena τ) : Prop :=
  ∃ blocks, Twins P Q h k blocks

/-- An arena has one chain only. -/
lemma Sound.unique {xs ys : List Piece} (hx : h.Sound P xs) (hy : h.Sound P ys) : xs = ys := by
  refine hx.chained.tiles.unique hy.chained.tiles ?_
  have hleft := hx.stop_eq
  have hright := hy.stop_eq
  omega

lemma Alike.search_eq (ha : Alike h k) : k.search size blocks = h.search size blocks := by
  unfold search origin
  rw [ha.placement, ha.start, ha.stop]

lemma Alike.searched_eq (ha : Alike h k) : k.searched size blocks = h.searched size blocks := by
  unfold searched
  rw [ha.search_eq, ha.placement]
  unfold origin
  rw [ha.start, ha.stop]

lemma Alike.surplus_eq (ha : Alike h k) (block : Nat) :
    k.surplus block size = h.surplus block size := by
  unfold surplus
  rw [ha.floor]

lemma Alike.withMemory (ha : Alike h k) (m m' : Memory) :
    Alike (h.withMemory m) (k.withMemory m') :=
  ⟨ha.start, ha.stop, ha.floor, ha.chunkSize, ha.shrinkThreshold, ha.placement, ha.base, ha.reach⟩

namespace Twins

/-- Runs from twins lead to twins if they leave the same chain, placement and break. -/
lemma led {α β : Type} {m : Action σ α} {m' : Action τ β} {x : α} {y : β}
    {asked asked' : List Event} {blocks' : List Piece} {kept kept' : List (Nat × Nat)}
    (ht : Twins P Q h k blocks) (hl : Leads P m h x h' asked blocks' kept)
    (hr : Leads Q m' k y k' asked' blocks' kept') (hplacement : k'.placement = h'.placement)
    (hreach : Segment.stop k'.segment = Segment.stop h'.segment) : Twins P Q h' k' blocks' := by
  have ha := ht.alike
  have hstart : k'.start = h'.start := by rw [hr.akin.start, hl.akin.start, ha.start]
  refine ⟨hl.sound, hr.sound, hstart, ?_, ?_, ?_, ?_, hplacement, ?_, hreach⟩
  · rw [← hl.sound.stop_eq, ← hr.sound.stop_eq, hstart]
  · rw [hr.akin.floor, hl.akin.floor, ha.floor]
  · rw [hr.akin.chunkSize, hl.akin.chunkSize, ha.chunkSize]
  · rw [hr.akin.shrinkThreshold, hl.akin.shrinkThreshold, ha.shrinkThreshold]
  · rw [hr.runs.base, hl.runs.base, ha.base]

/-- Each twin may have anything in an allocated payload. -/
lemma write {b s : Nat} {m m' : Memory} (ht : Twins P Q h k blocks)
    (hb : (b, s) ∈ taken h.start blocks)
    (hm : Memory.SameOutside (b + wordSize) (b + s - wordSize) h.memory m)
    (hm' : Memory.SameOutside (b + wordSize) (b + s - wordSize) k.memory m') :
    Twins P Q (h.withMemory m) (k.withMemory m') blocks := by
  refine ⟨(ht.left.write hb hm).1, (ht.right.write ?_ hm').1, ht.alike.withMemory m m'⟩
  rwa [ht.alike.start]

end Twins

/-- Growing once is told whether that was granted. -/
lemma enlarge_answers (hP : Segment.Exact P) (hs : h.Sound P blocks) (hpos : 0 < size)
    (hsize : size % blockUnit = 0) :
    Event.answers (enlarge size h).events =
      [(Segment.grow (max h.chunkSize size) h.segment h.memory).refusal.isNone] := by
  have hloop : enlarge (σ := σ) size = enlargeWithin size ((Word.limit - 1) + 1) := rfl
  have hvalid := hs.valid
  have hstart := hP.grow_start (max h.chunkSize size) h.memory hvalid
  have hafter := hP.grow_valid (max h.chunkSize size) h.memory hvalid
  have hgrow := Action.Runs.grow (max h.chunkSize size) hstart
  have hechoed : Event.answers (Action.grow (max h.chunkSize size) h).events =
      [(Segment.grow (max h.chunkSize size) h.segment h.memory).refusal.isNone] :=
    Action.answers_echo _
  rw [hloop]
  unfold enlargeWithin
  rw [(Action.Runs.get h).answers_bind, hgrow.answers_bind, hechoed]
  cases hanswer : (Segment.grow (max h.chunkSize size) h.segment h.memory).refusal with
  | some error => rfl
  | none =>
    have hgranted := hP.grow_granted _ _ hvalid hanswer
    have hends : Word.floorUnit (Segment.stop
        (Segment.grow (max h.chunkSize size) h.segment h.memory).segment - wordSize) =
        h.stop + max h.chunkSize size := by
      rw [hgranted, hs.ends_grown (hs.request_mod hsize)]
    obtain ⟨h', hannex, _⟩ := hs.annex_runs hafter (hP.stop_lt hafter) hstart
      (by omega) (hP.grow_kept (max h.chunkSize size) h.memory hvalid) hends (by omega)
    simp only
    rw [hannex.answers_bind, Event.answers_of_plain (Built.annex.plain _),
      (Action.Runs.note _ _ h').answers_bind, Event.answers_of_plain ((Built.note _ _).plain _),
      if_pos (by omega)]
    rfl

/-- Trimming is told once for each request whether it was granted. -/
lemma trim_answers (block size : Nat) (h : Arena σ) :
    Event.answers (trim block size h).events =
      (Event.requests (trim block size h).events).map fun _ =>
        (Segment.shrink (h.surplus block size) h.segment h.memory).refusal.isNone := by
  have hget : (Action.get : Action σ (Arena σ)) h = ⟨.ok h, h, []⟩ := rfl
  unfold trim
  rw [Action.bind_of_ok hget]
  cases Word.add block size with
  | error fault => rfl
  | ok reach =>
    have hreach : (liftM (.ok reach : Except Fault Nat) : Action σ Nat) h = ⟨.ok reach, h, []⟩ := rfl
    rw [Action.bind_of_ok hreach]
    by_cases hstay : reach ≠ h.stop ∨ size < h.shrinkThreshold
    · rw [if_pos hstay]
      rfl
    rw [if_neg hstay]
    cases hsub : Word.sub size (h.floor - block) with
    | error fault => rfl
    | ok bytes =>
      obtain ⟨_, hbytes⟩ := Word.sub_ok hsub
      change bytes = h.surplus block size at hbytes
      have hsize : (liftM (.ok bytes : Except Fault Nat) : Action σ Nat) h = ⟨.ok bytes, h, []⟩ := rfl
      rw [Action.bind_of_ok hsize]
      by_cases hnone : bytes = 0
      · rw [if_pos hnone]
        rfl
      rw [if_neg hnone, ← hbytes]
      generalize hmove : Segment.shrink bytes h.segment h.memory = move
      have hshrink : Action.shrink bytes h =
          ⟨.ok move.refusal, h.answered move, .shrink bytes :: Action.echo move⟩ := by
        rw [← hmove]
        rfl
      have hechoed : Event.answers (.shrink bytes :: Action.echo move) = [move.refusal.isNone] :=
        Action.answers_echo move
      have hasked : Event.requests (.shrink bytes :: Action.echo move) = [.shrink bytes] :=
        congrArg (_ :: ·) (Action.requests_echo move)
      rw [Action.bind_of_ok hshrink]
      simp only [Event.answers_append, Event.requests_append, hechoed, hasked]
      cases move.refusal with
      | some error => rfl
      | none =>
        have hplain := Built.plain (.cut block (h.floor - block) bytes (Word.backward h.stop bytes))
          (h.answered move)
        simp only [Event.answers_of_plain hplain, Event.requests_of_plain hplain]
        rfl

/-- A free block that goes back is told whether that was granted. -/
lemma trim_heard (hP : Segment.Exact P) (hs : h.Sound P (pre ++ [⟨size, .free⟩]))
    (hlarge : h.shrinkThreshold ≤ size) (habove : h.floor < h.stop) :
    Event.answers (trim (h.start + span pre) size h).events =
      [(Segment.shrink (h.surplus (h.start + span pre) size) h.segment h.memory).refusal.isNone] := by
  rw [trim_answers]
  by_cases hanswer :
      (Segment.shrink (h.surplus (h.start + span pre) size) h.segment h.memory).refusal = none
  · obtain ⟨h', hl, _⟩ := trim_granted_leads hP hs hlarge habove hanswer
    rw [hl.runs.requests]
    rfl
  · obtain ⟨hl, _⟩ := trim_refused_leads hP hs hlarge habove hanswer
    rw [hl.runs.requests]
    rfl

/-- Twins with a free block of at least `size` bytes where the result points, if it does. -/
def Offer (P : σ → Prop) (Q : τ → Prop) (size : Nat) (r : Option Nat) (h : Arena σ) (k : Arena τ) :
    Prop :=
  ∃ blocks, Twins P Q h k blocks ∧ ∀ b, r = some b →
    ∃ pre n post, blocks = pre ++ ⟨n, .free⟩ :: post ∧ b = h.start + span pre ∧ size ≤ n

/-- A free block that is large enough is handed out on both sides. -/
lemma handOut_coupled (ht : Twins P Q h k (pre ++ ⟨n, .free⟩ :: post)) {b bytes : Nat}
    (hat : b = h.start + span pre) (hsized : Block.sizeFor bytes = some size) (hle : size ≤ n) :
    Coupled (Together P Q) (do
        carve b size
        Action.diag .verbose (return .handedOut b (← Block.size b))
        return some (Block.payload b)) h
      (do
        carve b size
        Action.diag .verbose (return .handedOut b (← Block.size b))
        return some (Block.payload b)) k := by
  subst hat
  obtain ⟨m, hl, _⟩ := ht.left.handOut_leads hsized hle
  obtain ⟨m', hr, _⟩ := ht.right.handOut_leads hsized hle
  rw [ht.alike.start] at hr
  have hbuilt : ∀ {ρ : Type} [Segment ρ], Built False (do
      carve (h.start + span pre) size
      Action.diag .verbose
        (return .handedOut (h.start + span pre) (← Block.size (h.start + span pre)))
      return some (Block.payload (h.start + span pre)) : Action ρ (Option Nat)) :=
    (Built.carve _ _).bind fun _ => (Built.diag _ (.size _ _)).bind fun _ => .pure _
  exact .quiet (hl.runs.quiet hbuilt) (hr.runs.quiet hbuilt)
    ⟨_, ht.led hl hr ht.alike.placement ht.alike.reach⟩

/-- Without a word on the bytes of any block. -/
lemma Leads.bare {α : Type} {m : Action σ α} {x : α} {asked : List Event}
    (hm : Action.Runs m h x h' asked) (hs : h'.Sound P blocks) (ha : h.Akin h') :
    Leads P m h x h' asked blocks [] :=
  ⟨hm, hs, ha, fun _ hb => absurd hb List.not_mem_nil⟩

/-- An allocated block that takes the free block after it in leaves the same cursor on both sides. -/
lemma growInPlace_coupled {new : Nat}
    (ht : Twins P Q h k (pre ++ ⟨size, .allocated⟩ :: ⟨n, .free⟩ :: post)) (hpos : 0 < new)
    (hunit : new % blockUnit = 0) (hle : new ≤ size + n) :
    Coupled (Together P Q) (growInPlace (h.start + span pre) (size + n) new) h
      (growInPlace (h.start + span pre) (size + n) new) k := by
  have ha := ht.alike
  obtain ⟨h', ⟨_, hl, _⟩, hsegment, _, hplacement⟩ := growInPlace_trades ht.left hpos hunit hle
  obtain ⟨k', ⟨_, hr, _⟩, hsegment', _, hplacement'⟩ := growInPlace_trades ht.right hpos hunit hle
  rw [ha.start] at hr hplacement'
  refine .quiet (hl.runs.quiet (.growInPlace _ _ _)) (hr.runs.quiet (.growInPlace _ _ _))
    ⟨_, ht.led hl hr ?_ ?_⟩
  · rw [hplacement, hplacement', ha.placement]
  · rw [hsegment, hsegment', ha.reach]

/-- The tag after a block is the same on both sides. -/
lemma after_coupled {β : Type} {R : β → Arena σ → Arena τ → Prop} {f : Tag → Action σ β}
    {f' : Tag → Action τ β} {p : Piece} (ht : Twins P Q h k (pre ++ p :: post))
    (hf : Coupled R (f ⟨headBits post⟩) h (f' ⟨headBits post⟩) k) :
    Coupled R (do f (← Action.load (← Block.next (h.start + span pre)))) h
      (do f' (← Action.load (← Block.next (h.start + span pre)))) k := by
  have hseam : h.Laid ((pre ++ [p]) ++ post) := by simpa using ht.left.toLaid
  have hseam' : k.Laid ((pre ++ [p]) ++ post) := by simpa using ht.right.toLaid
  have hnext := ht.left.toLaid.next_runs
  have hnext' := ht.right.toLaid.next_runs
  have hload := hseam.load_runs
  have hload' := hseam'.load_runs
  rw [ht.alike.start] at hnext' hload'
  rw [span_step] at hload hload'
  refine .after (hnext.quiet (.next _)) (hnext'.quiet (.next _)) ?_
  exact .after (hload.quiet (.load _)) (hload'.quiet (.load _)) hf

section Coupling

variable (hP : Segment.Exact P) (hQ : Segment.Exact Q)

include hP hQ

lemma enlarge_coupled (ht : Twins P Q h k blocks) (hpos : 0 < size)
    (hsize : size % blockUnit = 0) :
    Coupled (Offer P Q size) (enlarge size) h (enlarge size) k := by
  have ha := ht.alike
  refine .heard (enlarge_answers hP ht.left hpos hsize) (enlarge_answers hQ ht.right hpos hsize)
    fun hsame => ?_
  obtain ⟨r, h', blocks', hl, he⟩ := enlarge_runs hP ht.left hpos hsize
  obtain ⟨r', k', blocks'', hr, he'⟩ := enlarge_runs hQ ht.right hpos hsize
  have hstart := hl.akin.start
  rw [ha.chunkSize] at hr
  cases he with
  | refused answer arena =>
    cases he' with
    | refused answer' arena' =>
      have hleft := hP.grow_refused _ h.memory ht.left.valid answer
      have hright := hQ.grow_refused _ k.memory ht.right.valid answer'
      refine ⟨none, .of_runs hl.runs hr.runs ⟨blocks, ht.led hl hr ?_ ?_, nofun⟩⟩
      · rw [arena, arena']
        exact ha.placement
      · rw [arena, arena']
        exact hright.trans (ha.reach.trans hleft.symm)
    | granted answer' =>
      rw [answer'] at hsame
      exact absurd (Option.isNone_iff_eq_none.mp hsame) answer
  | granted answer segment stop placement =>
    cases he' with
    | refused answer' =>
      rw [answer] at hsame
      exact absurd (Option.isNone_iff_eq_none.mp hsame.symm) answer'
    | granted answer' segment' stop' placement' =>
      rw [ha.chunkSize, ha.start] at hr
      refine ⟨_, .of_runs hl.runs hr.runs ⟨_, ht.led hl hr ?_ ?_, ?_⟩⟩
      · rw [placement, placement', ha.placement]
      · rw [segment, segment', ha.chunkSize, ha.reach]
      · rintro b hb
        exact ⟨_, _, [], rfl, by rw [hstart, ← Option.some.inj hb], by omega⟩

lemma obtain_coupled (ht : Twins P Q h k blocks) (hpos : 0 < size)
    (hsize : size % blockUnit = 0) :
    Coupled (Offer P Q size) (Arena.obtain size) h (Arena.obtain size) k := by
  have ha := ht.alike
  have hfind := find_runs size ht.left.toLaid fun c hc => Or.inl (ht.left.cursor c hc)
  have hfind' := find_runs size ht.right.toLaid fun c hc =>
    Or.inl (ht.right.cursor c hc)
  rw [ha.search_eq, ha.searched_eq] at hfind'
  have hright := ht.right.searched size
  rw [ha.searched_eq] at hright
  have ht₁ : Twins P Q (h.withPlacement (h.searched size blocks))
      (k.withPlacement (h.searched size blocks)) blocks :=
    ⟨ht.left.searched size, hright, ha.start, ha.stop, ha.floor, ha.chunkSize, ha.shrinkThreshold,
      rfl, ha.base, ha.reach⟩
  unfold Arena.obtain
  refine .after (hfind.quiet (.find size)) (hfind'.quiet (.find size)) ?_
  cases hfound : h.search size blocks with
  | none => exact enlarge_coupled hP hQ ht₁ hpos hsize
  | some b =>
    refine .pure _ ⟨blocks, ht₁, fun c hc => ?_⟩
    obtain rfl := Option.some.inj hc
    exact search_some (h := h) hfound

lemma allocate_coupled (ht : Twins P Q h k blocks) (n : Nat) :
    Coupled (fun r h' k' => ∃ blocks', Twins P Q h' k' blocks' ∧ h'.start = h.start ∧
        (taken h'.start blocks').Perm (Block.handed r n ++ taken h'.start blocks))
      (allocate n) h (allocate n) k := by
  have hcoupled : Coupled (Together P Q) (allocate n) h (allocate n) k := by
    unfold allocate
    refine .noted _ _ ?_
    by_cases hzero : n = 0
    · simp only [if_pos hzero]
      exact .pure none ⟨blocks, ht⟩
    simp only [if_neg hzero]
    cases hsized : Block.sizeFor n with
    | none => exact .pure none ⟨blocks, ht⟩
    | some size =>
      obtain ⟨hunit, hroom, _, _⟩ := Block.sizeFor_spec hsized
      simp only [wordSize] at hroom
      refine (obtain_coupled hP hQ ht (by omega) hunit).bind ?_
      rintro (_ | b) h₁ k₁ ⟨blocks₁, ht₁, hoffer⟩
      · exact .pure none ⟨blocks₁, ht₁⟩
      · obtain ⟨pre, _, post, rfl, hat, hle⟩ := hoffer b rfl
        exact handOut_coupled ht₁ hat hsized hle
  obtain ⟨r, h', asked, blocks', ⟨_, hl, hkept, htaken⟩, _⟩ := allocate_trades hP ht.left n
  refine (hcoupled.along hl.runs).mono ?_
  rintro _ _ k' ⟨rfl, rfl, blocks'', ht'⟩
  obtain rfl := hl.sound.unique ht'.left
  refine ⟨blocks', ht', hl.akin.start, ?_⟩
  rw [hl.akin.start]
  exact htaken.trans (hkept.symm.append_left _)

/-- What is in the bytes that are cleared or copied over does not matter. -/
lemma allocateZeroed_coupled (ht : Twins P Q h k blocks) (count size : Nat) :
    Coupled (Together P Q) (allocateZeroed count size) h (allocateZeroed count size) k := by
  unfold allocateZeroed
  refine .noted _ _ ?_
  by_cases hlt : count * size < Word.limit
  · simp only [if_pos hlt]
    refine (allocate_coupled hP hQ ht (count * size)).bind ?_
    rintro (_ | p) h₁ k₁ ⟨blocks₁, ht₁, _, htaken⟩
    · exact .pure none ⟨blocks₁, ht₁⟩
    · have hroom := Block.le_leastSize (count * size)
      obtain ⟨hword, hblock⟩ := ht₁.left.le_handed htaken
      have hfill : ∀ m : Memory, Memory.SameOutside (p - wordSize + wordSize)
          (p - wordSize + Block.leastSize (count * size) - wordSize) m
          (m.fill p (p + count * size) 0) := by
        intro m a ha
        rw [Memory.read_fill, if_neg]
        simp only [wordSize] at *
        omega
      have ht₂ := ht₁.write hblock (hfill _) (hfill _)
      refine .written (fun m => m.fill p (p + count * size) 0) ?_
      exact .pure _ ⟨blocks₁, ht₂⟩
  · simp only [if_neg hlt]
    exact .pure none ⟨blocks, ht⟩

lemma trim_coupled (ht : Twins P Q h k (pre ++ ⟨size, .free⟩ :: post)) :
    Coupled (Together P Q) (trim (h.start + span pre) size) h (trim (h.start + span pre) size) k := by
  have ha := ht.alike
  rcases ht.left.trim_cases with hidle | ⟨rfl, hlarge, habove⟩
  · have hl := trim_idle_runs ht.left.toLaid hidle
    rw [← ha.shrinkThreshold, ← ha.floor, ← ha.stop] at hidle
    have hr := trim_idle_runs ht.right.toLaid hidle
    rw [ha.start] at hr
    have hsilent := trim_answers (h.start + span pre) size h
    have hsilent' := trim_answers (h.start + span pre) size k
    rw [hl.requests] at hsilent
    rw [hr.requests] at hsilent'
    exact .quiet ⟨hl, hsilent⟩ ⟨hr, hsilent'⟩ ⟨_, ht⟩
  · have hlarge' : k.shrinkThreshold ≤ size := by rwa [ha.shrinkThreshold]
    have habove' : k.floor < k.stop := by rwa [ha.floor, ha.stop]
    have hheard' := trim_heard hQ ht.right hlarge' habove'
    have hgranted' := trim_granted_leads hQ ht.right hlarge' habove'
    have hrefused' := trim_refused_leads hQ ht.right hlarge' habove'
    rw [ha.start, ha.surplus_eq] at hheard' hgranted' hrefused'
    refine .heard (trim_heard hP ht.left hlarge habove) hheard' fun hsame => ⟨(), ?_⟩
    by_cases hanswer :
        (Segment.shrink (h.surplus (h.start + span pre) size) h.segment h.memory).refusal = none
    · rw [hanswer] at hsame
      obtain ⟨h', hl, hreach, hstop, hplacement⟩ := trim_granted_leads hP ht.left hlarge habove hanswer
      obtain ⟨k', hr, hreach', hstop', hplacement'⟩ :=
        hgranted' (Option.isNone_iff_eq_none.mp hsame.symm)
      have hbreak := ha.reach
      rw [ha.floor] at hr hstop'
      refine .of_runs hl.runs hr.runs ⟨_, ht.led hl hr ?_ (by omega)⟩
      rw [hplacement, hplacement', ha.placement, hstop, hstop']
    · have hanswer' := fun hnone => hanswer
        (Option.isNone_iff_eq_none.mp (hsame.trans (Option.isNone_iff_eq_none.mpr hnone)))
      obtain ⟨hl, hreach⟩ := trim_refused_leads hP ht.left hlarge habove hanswer
      obtain ⟨hr, hreach'⟩ := hrefused' hanswer'
      exact .of_runs hl.runs hr.runs
        ⟨_, ht.led hl hr ha.placement (hreach'.trans (ha.reach.trans hreach.symm))⟩

/-- Merging asks the segment for nothing, and what is left of it is trimming. -/
lemma release_coupled (ht : Twins P Q h k (pre ++ ⟨size, .allocated⟩ :: post)) :
    Coupled (Together P Q) (release (h.start + span pre)) h (release (h.start + span pre)) k := by
  have ha := ht.alike
  obtain ⟨h₁, hgather, hs₁, hakin, hsegment, _, hplacement, _⟩ := gather_runs ht.left
  obtain ⟨k₁, hgather', hs₁', hakin', hsegment', _, hplacement', _⟩ := gather_runs ht.right
  rw [ha.start] at hgather' hplacement'
  have ht₁ := ht.led (Leads.bare hgather hs₁ hakin) (Leads.bare hgather' hs₁' hakin')
    (by rw [hplacement, hplacement', ha.placement]) (by rw [hsegment, hsegment', ha.reach])
  rw [release_eq, release_eq]
  refine .after (hgather.quiet (.gather _)) (hgather'.quiet (.gather _)) ?_
  have htrim := trim_coupled hP hQ ht₁
  rwa [hakin.start] at htrim

lemma free_coupled (ht : Twins P Q h k (pre ++ ⟨size, .allocated⟩ :: post)) :
    Coupled (Together P Q) (free (some (h.start + span pre + wordSize))) h
      (free (some (h.start + span pre + wordSize))) k := by
  have hload := ht.left.toLaid.load_runs
  have hload' := ht.right.toLaid.load_runs
  have hfree := ht.left.toLaid.whole.tag_isFree
  rw [ht.alike.start] at hload'
  simp only [headBits, List.head?_cons, Option.map_some, Option.getD_some] at hload hload'
  unfold free
  refine .noted _ _ ?_
  simp only [Block.ofPayload_eq ht.left.toLaid.payload_lt]
  refine .after (hload.quiet (.load _)) (hload'.quiet (.load _)) ?_
  exact .lifted hfree (release_coupled hP hQ ht)

lemma shrinkInPlace_coupled {new : Nat}
    (ht : Twins P Q h k (pre ++ ⟨size, .allocated⟩ :: post)) (hpos : 0 < new)
    (hunit : new % blockUnit = 0) (hlt : new < size) :
    Coupled (Together P Q) (shrinkInPlace (h.start + span pre) size new) h
      (shrinkInPlace (h.start + span pre) size new) k := by
  have ha := ht.alike
  have hold := ht.left.toLaid.whole.2
  have hblock := ht.left.toLaid.block_le
  have hlimit := ht.left.toLaid.stop_lt_limit
  simp only [blockUnit] at hold hunit hblock
  have hfirst : Piece.Whole ⟨new, .allocated⟩ := ⟨hpos, hunit⟩
  have hsecond : Piece.Whole ⟨size - new, .allocated⟩ :=
    ⟨by simp only; omega, by simp only [blockUnit]; omega⟩
  obtain ⟨m₁, m₂, hmark₁, hmark₂, hlaid, _⟩ := ht.left.toLaid.split_runs _ _ hfirst hsecond
    (by simp only; omega)
  obtain ⟨m₁', m₂', hmark₁', hmark₂', hlaid', _⟩ := ht.right.toLaid.split_runs _ _ hfirst hsecond
    (by simp only; omega)
  rw [ha.start] at hmark₁' hmark₂'
  have ht₂ : Twins P Q (h.withMemory m₂) (k.withMemory m₂')
      ((pre ++ [⟨new, .allocated⟩]) ++ ⟨size - new, .allocated⟩ :: post) :=
    ⟨ht.left.halved hlt hlaid, ht.right.halved hlt hlaid', ha.withMemory m₂ m₂'⟩
  have hat : h.start + span (pre ++ [⟨new, .allocated⟩]) = h.start + span pre + new :=
    span_step _ _ _
  have hrelease := release_coupled hP hQ ht₂
  simp only [withMemory_start, hat] at hrelease
  unfold shrinkInPlace
  refine .noted _ _ ?_
  refine .after (hmark₁.quiet (.mark _ _ _)) (hmark₁'.quiet (.mark _ _ _)) ?_
  rw [Word.forward_of_lt (by omega)]
  exact .after (hmark₂.quiet (.mark _ _ _)) (hmark₂'.quiet (.mark _ _ _))
    hrelease

/-- The block that is copied from is there on both sides after the one to copy to was allocated. -/
lemma move_coupled (ht : Twins P Q h k (pre ++ ⟨size, .allocated⟩ :: post)) (n : Nat) :
    Coupled (Together P Q) (move (h.start + span pre + wordSize) size n) h
      (move (h.start + span pre + wordSize) size n) k := by
  have hle := ht.left.toLaid.whole.le
  simp only [minBlockSize] at hle
  have hsub : Word.sub size (2 * wordSize) = .ok (size - 2 * wordSize) :=
    Word.sub_of_le (by simp only [wordSize]; omega)
  unfold move
  refine (allocate_coupled hP hQ ht n).bind ?_
  rintro (_ | t) h₁ k₁ ⟨blocks₁, ht₁, hstart, htaken⟩
  · exact .pure none ⟨blocks₁, ht₁⟩
  · have hroom := Block.le_leastSize n
    obtain ⟨hword, htarget⟩ := ht₁.left.le_handed htaken
    have hcopy : ∀ m : Memory, Memory.SameOutside (t - wordSize + wordSize)
        (t - wordSize + Block.leastSize n - wordSize) m
        (m.copy (h.start + span pre + wordSize) t (min (size - 2 * wordSize) n)) := by
      intro m a ha
      rw [Memory.read_copy, if_neg]
      simp only [wordSize] at *
      omega
    have ht₂ := ht₁.write htarget (hcopy _) (hcopy _)
    have hsource : (h.start + span pre, size) ∈ taken h₁.start blocks₁ := by
      apply htaken.mem_iff.mpr
      rw [hstart, taken_append, taken_allocated]
      simp
    obtain ⟨pre₁, post₁, rfl, hpre₁⟩ := mem_taken_iff.mp hsource
    have hfree := free_coupled hP hQ ht₂
    rw [withMemory_start, ← hpre₁] at hfree
    refine .lifted hsub ?_
    refine .written (fun m => m.copy _ t _) ?_
    exact hfree.bind fun _ h' k' ht' => .pure _ ht'

lemma resize_coupled (ht : Twins P Q h k (pre ++ ⟨size, .allocated⟩ :: post)) (n : Nat) :
    Coupled (Together P Q) (resize (some (h.start + span pre + wordSize)) n) h
      (resize (some (h.start + span pre + wordSize)) n) k := by
  have ha := ht.alike
  have hsize := ht.left.toLaid.size_runs
  have hsize' := ht.right.toLaid.size_runs
  rw [ha.start] at hsize'
  unfold resize
  refine .noted _ _ ?_
  by_cases hzero : n = 0
  · simp only [if_pos hzero]
    exact (free_coupled hP hQ ht).bind fun _ h' k' ht' => .pure _ ht'
  simp only [if_neg hzero, Block.ofPayload_eq ht.left.toLaid.payload_lt]
  refine .after (hsize.quiet (.size _)) (hsize'.quiet (.size _)) ?_
  cases hsized : Block.sizeFor n with
  | none => exact .pure none ⟨_, ht⟩
  | some new =>
    obtain ⟨hunit, hroom, _, _⟩ := Block.sizeFor_spec hsized
    by_cases hsame : new = size
    · simp only [if_pos hsame]
      exact .pure _ ⟨_, ht⟩
    by_cases hless : new < size
    · simp only [if_neg hsame, if_pos hless]
      have hpos : 0 < new := by
        simp only [wordSize] at hroom
        omega
      exact (shrinkInPlace_coupled hP hQ ht hpos hunit hless).bind fun _ h' k' ht' => .pure _ ht'
    · simp only [if_neg hsame, if_neg hless]
      have hwhole : ∀ p ∈ post, p.Whole := fun p hp =>
        ht.left.chained.tiles.whole (List.mem_append_right _ (List.mem_cons_of_mem _ hp))
      have hfreeSize := (headBits_size_cases hwhole).2
      refine after_coupled ht (.lifted ht.left.toLaid.headBits_add ?_)
      refine .lifted (headBits_isFree hwhole) ?_
      simp only [Bool.and_eq_true, decide_eq_true_eq]
      by_cases hfits : 0 < freeHead post ∧ new ≤ size + Tag.size ⟨headBits post⟩
      · obtain ⟨b, rest, rfl⟩ : ∃ b rest, post = ⟨b, .free⟩ :: rest := by
          rcases head_cases post with ⟨hnone, _⟩ | hpost
          · omega
          · exact ⟨_, _, hpost⟩
        rw [hfreeSize hfits.1] at hfits ⊢
        simp only [if_pos hfits]
        have hgrow := growInPlace_coupled ht (by omega) hunit hfits.2
        exact hgrow.bind fun _ h' k' ht' => .pure _ ht'
      · simp only [if_neg hfits]
        exact move_coupled hP hQ ht n

end Coupling
end Arena

/-- As far as the segments answer alike, a call does the same in arenas that differ only in bytes that
are not theirs. -/
theorem Held.coupled {P : σ → Prop} {Q : τ → Prop} {h : Arena σ} {k : Arena τ} {live : List Lease}
    {blocks : List Piece} {c : Call} (hP : Segment.Exact P) (hQ : Segment.Exact Q)
    (hh : Held P h live blocks) (ht : Arena.Twins P Q h k blocks) (hc : c.Valid live) :
    Coupled (Arena.Together P Q) c.action h c.action k := by
  cases c with
  | allocate size =>
    exact (Arena.allocate_coupled hP hQ ht size).mono fun _ _ _ ⟨blocks', ht', _⟩ => ⟨blocks', ht'⟩
  | allocateZeroed count size => exact Arena.allocateZeroed_coupled hP hQ ht count size
  | free payload =>
    rcases payload with _ | p
    · exact .bind (.noted _ _ (.pure () ⟨blocks, ht⟩)) fun _ h' k' ht' => .pure none ht'
    · obtain ⟨l, hl, rfl⟩ := List.mem_map.mp (hc p rfl)
      obtain ⟨pre, post, rfl, hat⟩ := hh.split hl
      rw [hat]
      exact (Arena.free_coupled hP hQ ht).bind fun _ h' k' ht' => .pure none ht'
  | resize payload size =>
    rcases payload with _ | p
    · refine .noted _ _ ?_
      exact (Arena.allocate_coupled hP hQ ht size).mono fun _ _ _ ⟨blocks', ht', _⟩ => ⟨blocks', ht'⟩
    · obtain ⟨l, hl, rfl⟩ := List.mem_map.mp (hc p rfl)
      obtain ⟨pre, post, rfl, hat⟩ := hh.split hl
      rw [hat]
      exact Arena.resize_coupled hP hQ ht size

end BlockHeap
