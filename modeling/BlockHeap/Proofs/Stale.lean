import BlockHeap.Proofs.Ownership
import BlockHeap.Proofs.Refree

/-!
# Stale pointers

A pointer is stale once its block was freed and no allocated block has been there since. The header
that it speaks of is then the tag of a free block, whatever merging, splitting and trimming did
around it, or a sentinel that a trim left behind. In the first case freeing the pointer once more
changes nothing; in the second it overwrites the sentinel.
-/

namespace BlockHeap

variable {sys : System}

/-- The word at `b` lies neither in the header nor in the first `n` bytes of this payload. -/
def Clear (b n : Nat) (payload : Option Nat) : Prop :=
  ∀ p ∈ payload, p ≠ Block.payload b ∧ (b + wordSize ≤ p ∨ p + n ≤ b)

/-- The action keeps the arena calm, if the payload of `n` bytes that it answers is not at `b`. -/
def CalmsBeside (sys : System) (b w n : Nat) (m : Action (Reservation sys) (Option Nat)) : Prop :=
  Action.Meets (Arena.Calm b w) m fun r h => Clear b n r → h.Calm b w

namespace CalmsBeside

variable {α : Type} {b w n : Nat} {f : α → Action (Reservation sys) (Option Nat)}
  {m : Action (Reservation sys) α} {Q : α → Prop}

lemma of_calms {m : Action (Reservation sys) (Option Nat)} {Q : Option Nat → Prop}
    (hm : Calms sys b w m Q) : CalmsBeside sys b w n m :=
  hm.keeps.mono (fun _ hp => hp) fun _ _ hx _ => hx

lemma answer (r : Option Nat) : CalmsBeside sys b w n (pure r) :=
  of_calms (Calms.pure (Q := fun _ => True) trivial)

lemma bind (hm : Calms sys b w m Q) (hf : ∀ x, Q x → CalmsBeside sys b w n (f x)) :
    CalmsBeside sys b w n (m >>= f) :=
  Action.Meets.bind hm fun x h hx => hf x hx.2 h hx.1

lemma of_answer {m : Action (Reservation sys) (Option Nat)} {r : Option Nat}
    (hm : Action.Meets (fun _ => True) m fun x _ => x = r) (hr : ¬Clear b n r) :
    CalmsBeside sys b w n m :=
  hm.mono (fun _ _ => trivial) fun _ _ hx hclear => absurd (hx ▸ hclear) hr

lemma allocate {size : Nat} (hb : b % blockUnit = 0) :
    CalmsBeside sys b w n (Arena.allocate size) := by
  unfold Arena.allocate
  refine bind (Calms.note _ _) fun _ _ => ?_
  by_cases hzero : size = 0
  · rw [if_pos hzero]
    exact answer _
  · rw [if_neg hzero]
    cases hsized : Block.sizeFor size with
    | none => exact answer _
    | some blockSize =>
      refine bind (Calms.obtain hb) fun found hfound => ?_
      rcases found with _ | block
      · exact answer _
      · by_cases hne : b = block
        · -- the answer is the payload at `b`
          subst hne
          refine of_answer (r := some (Block.payload b)) ?_ fun hclear => (hclear _ rfl).1 rfl
          refine Action.Meets.anyway fun _ => Action.Meets.anyway fun _ => ?_
          exact fun _ _ x hx => (Except.ok.inj hx).symm
        · have hsize := (Block.sizeFor_spec hsized).1
          refine bind (Calms.carve hb (hfound block rfl) hsize hne) fun _ _ => ?_
          refine bind (Calms.diag _ (Calms.size.bind fun _ _ => Calms.pure trivial)) fun _ _ => ?_
          exact answer _

/-- What follows an answer that stays the same. -/
lemma after {m : Action (Reservation sys) (Option Nat)}
    {f : Option Nat → Action (Reservation sys) (Option Nat)}
    {R : Option Nat → Arena (Reservation sys) → Prop} (hm : CalmsBeside sys b w n m)
    (hf : ∀ r, Clear b n r → Action.Meets (Arena.Calm b w) (f r) fun _ h => R r h)
    (hr : ∀ r, Action.Meets (fun _ => True) (f r) fun x _ => x = r) :
    Action.Meets (Arena.Calm b w) (m >>= f) fun x h => Clear b n x → R x h := by
  refine Action.Meets.bind hm fun r h hcalm x hx hclear => ?_
  obtain rfl := hr r h trivial x hx
  exact hf x hclear h (hcalm hclear) x hx

lemma allocateZeroed {count size : Nat} (hb : b % blockUnit = 0) :
    CalmsBeside sys b w (count * size) (Arena.allocateZeroed count size) := by
  unfold Arena.allocateZeroed
  refine bind (Calms.note _ _) fun _ _ => ?_
  split
  next hlt =>
    refine after (allocate hb) (fun r hclear => ?_) fun r => ?_
    · rcases r with _ | p
      · exact (Calms.pure (Q := fun _ => True) trivial).keeps
      · refine ((Calms.write fun h => ?_).andThen fun _ =>
          Calms.pure (Q := fun _ => True) trivial).keeps
        refine Memory.word_congr fun a ha ha' => ?_
        have hapart := (hclear p rfl).2
        rw [Memory.read_fill, if_neg (by omega)]
    · rcases r with _ | p
      · exact fun _ _ x hx => (Except.ok.inj hx).symm
      · exact Action.Meets.anyway fun _ _ _ x hx => (Except.ok.inj hx).symm
  next => exact answer _

lemma move_ends {payload old size : Nat} {R : Option Nat → Arena (Reservation sys) → Prop}
    (hb : b % blockUnit = 0) (hnone : ∀ h, h.Calm b w → R none h)
    (hfree : ∀ p, Action.Meets (Arena.Calm b w) (Arena.free (some payload)) fun _ h =>
      R (some p) h) :
    Action.Meets (Arena.Calm b w) (Arena.move payload old size) fun r h =>
      Clear b size r → R r h := by
  unfold Arena.move
  refine after (allocate hb) (fun r hclear => ?_) fun r => ?_
  · rcases r with _ | p
    · exact fun h hcalm _ _ => hnone h hcalm
    · refine Action.Meets.bind Calms.word.keeps fun kept => ?_
      refine Action.Meets.bind (Calms.write fun h => ?_).keeps fun _ => ?_
      · refine Memory.word_congr fun a ha ha' => ?_
        have hapart := (hclear p rfl).2
        rw [Memory.read_copy, if_neg (by omega)]
      · exact Action.Meets.bind (hfree p) fun _ h hpost _ _ => hpost
  · rcases r with _ | p
    · exact fun _ _ x hx => (Except.ok.inj hx).symm
    · refine Action.Meets.anyway fun _ => Action.Meets.anyway fun _ => ?_
      exact Action.Meets.anyway fun _ _ _ x hx => (Except.ok.inj hx).symm

lemma move {payload old size : Nat} (hb : b % blockUnit = 0)
    (hpayload : Block.ofPayload payload % blockUnit = 0) :
    CalmsBeside sys b w size (Arena.move payload old size) :=
  move_ends (R := fun _ h => h.Calm b w) hb (fun _ hcalm => hcalm)
    fun _ => (Calms.free hb hpayload).keeps

/-- A payload that is resized elsewhere leaves the word alone. Its block must not contain the word,
since cutting it down makes a header inside it. -/
lemma resize {payload size block k : Nat} (hb : b % blockUnit = 0)
    (hat : Block.ofPayload payload = block) (hblock : block % blockUnit = 0)
    (hlt : block + k < Word.limit) (hout : b < block ∨ block + k ≤ b) (hk : 0 < k) :
    Action.Meets (fun h : Arena (Reservation sys) =>
        h.Calm b w ∧ Tag.size ⟨h.memory.word block⟩ = k)
      (Arena.resize (some payload) size) fun r h => Clear b size r → h.Calm b w := by
  have hne : b ≠ block := by omega
  have hpayload : Block.ofPayload payload % blockUnit = 0 := by rwa [hat]
  unfold Arena.resize
  refine Action.Meets.bind (Action.Meets.note _ _) fun _ => ?_
  by_cases hzero : size = 0
  · have hfree : CalmsBeside sys b w size (do
        Arena.free (some payload)
        return none) :=
      bind (Calms.free hb hpayload) fun _ _ => answer _
    simp only [if_pos hzero]
    exact Action.Meets.mono hfree (fun _ hp => hp.1) fun _ _ hx => hx
  simp only [if_neg hzero, hat]
  refine Action.Meets.bind (M := fun old h => h.Calm b w ∧ old = k) ?_ fun old => ?_
  · rintro h ⟨hcalm, hheader⟩ old hold
    obtain rfl := Except.ok.inj hold
    exact ⟨hcalm, hheader⟩
  · refine Action.Meets.given fun hold => ?_
    subst hold
    change CalmsBeside sys b w size _
    cases hsized : Block.sizeFor size with
    | none => exact answer _
    | some new =>
      have hnew := (Block.sizeFor_spec hsized).1
      by_cases heq : new = old
      · simp only [if_pos heq]
        exact answer _
      · by_cases hcut : new < old
        · simp only [if_neg heq, if_pos hcut]
          have hrest : b ≠ Word.forward block new := by
            rw [Word.forward_of_lt (by omega)]
            omega
          exact bind (Calms.shrinkInPlace hb hblock hnew hne hrest) fun _ _ => answer _
        · simp only [if_neg heq, if_neg hcut]
          refine bind (Calms.next hblock) fun after _ => ?_
          refine bind (Calms.load after) fun tag _ => ?_
          refine bind Calms.word fun available _ => bind Calms.check fun idle _ => ?_
          by_cases hfits : (idle && decide (new ≤ available)) = true
          · rw [if_pos hfits]
            exact bind (Calms.growInPlace hb hblock hnew hne) fun _ _ => answer _
          · rw [if_neg hfits]
            exact move hb hpayload

end CalmsBeside

lemma Tag.mod_of_isFree {t : Tag} (h : t.isFree = .ok true) : t.bits % blockUnit = 0 := by
  unfold Tag.isFree Tag.status Tag.status? at h
  split at h
  next status hstatus =>
    split at hstatus
    next hzero => exact hzero
    next =>
      obtain rfl := Option.some.inj hstatus
      exact absurd (Except.ok.inj h) (by decide)
    next => exact absurd hstatus (by simp)
  next => exact absurd h nofun

namespace Arena

variable {b w n : Nat}

lemma Calm.forget {h : Arena (Reservation sys)} (hc : h.Calm b w) (hidle : Idle (h.memory.word b))
    (v : Nat) : h.Calm b v :=
  ⟨hc.paged, hc.start, hc.stop, hc.floor, hc.cursor, Or.inr hidle⟩

lemma mark_forgets (hb : b % blockUnit = 0) (v : Nat) :
    Action.Meets (Calm b w) (Block.mark b n .free : Action (Reservation sys) Unit)
      fun _ h => h.Calm b v := by
  unfold Block.mark
  refine Action.Meets.bind (Calms.lift fun tag htag => Tag.pack_ok htag) fun tag => ?_
  refine Action.Meets.given ?_
  rintro ⟨hsize, hbits⟩
  have hword := Block.word_mod hb
  refine Action.Meets.bind (M := fun _ h => h.Calm b v) ?_ fun _ => ?_
  · intro h hc _ _
    refine ⟨hc.paged, hc.start, hc.stop, hc.floor, hc.cursor, Or.inr (Or.inl ?_)⟩
    change (h.memory.setWord b tag.bits).word b % blockUnit = 0
    rw [Memory.word_setWord_aligned _ _ hword hword, if_pos rfl, hbits]
    simp only [blockUnit, Word.limit, Status.bits] at *
    omega
  · exact (Calms.store hb (Block.footer_word_mod hb hsize) fun heq =>
      absurd heq (Block.ne_footer hb hb hsize)).keeps

lemma release_forgets (hb : b % blockUnit = 0) (v : Nat) :
    Action.Meets (Calm b w) (release b : Action (Reservation sys) Unit) fun _ h => h.Calm b v := by
  unfold release
  refine Action.Meets.bind Calms.size fun n => Action.Meets.given fun hn => ?_
  refine Action.Meets.bind (mark_forgets hb v) fun _ => ?_
  exact (Calms.settle hb hb hn).keeps

lemma free_forgets {payload : Nat} (hat : Block.ofPayload payload = b) (hb : b % blockUnit = 0)
    (v : Nat) : Action.Meets (Calm b w) (free (some payload) : Action (Reservation sys) Unit)
      fun _ h => h.Calm b v := by
  unfold free
  refine Action.Meets.bind (Calms.note _ _).keeps fun _ => ?_
  simp only [hat]
  refine Action.Meets.bind (M := fun tag h => h.Calm b w ∧ tag = ⟨h.memory.word b⟩)
    (fun h hc tag htag => ⟨hc, (Except.ok.inj htag).symm⟩) fun tag => ?_
  refine Action.Meets.bind
    (M := fun idle h => h.Calm b w ∧ (idle = true → Idle (h.memory.word b))) ?_ fun idle => ?_
  · rintro h ⟨hc, rfl⟩ idle hidle
    refine ⟨hc, fun heq => Or.inl (Tag.mod_of_isFree ?_)⟩
    rw [← heq]
    exact hidle
  · cases idle with
    | true =>
      rintro h ⟨hc, hidle⟩ _ _
      exact hc.forget (hidle rfl) v
    | false => exact Action.Meets.mono (release_forgets hb v) (fun _ hp => hp.1) fun _ _ hx => hx

lemma move_forgets {payload old size : Nat} (hat : Block.ofPayload payload = b)
    (hb : b % blockUnit = 0) (v : Nat) :
    Action.Meets (Calm b w) (move payload old size : Action (Reservation sys) _) fun r h =>
      Clear b size r → r.isSome → h.Calm b v := by
  refine CalmsBeside.move_ends (R := fun r h => r.isSome → h.Calm b v) hb ?_ fun p => ?_
  · exact fun _ _ hsome => absurd hsome (by simp)
  · exact (free_forgets hat hb v).mono (fun _ hp => hp) fun _ _ hx _ => hx

lemma resize_forgets {payload size : Nat} (hat : Block.ofPayload payload = b)
    (hb : b % blockUnit = 0) (v : Nat) :
    Action.Meets (Calm b w) (resize (some payload) size : Action (Reservation sys) _) fun r h =>
      Clear b size r → size = 0 ∨ r.isSome → r ≠ some payload → h.Calm b v := by
  have hstays : ∀ (r : Option Nat) (m : Action (Reservation sys) Unit), r = none ∨ r = some payload →
      size ≠ 0 → Action.Meets (Calm b w) (m >>= fun _ => pure r) fun r h =>
        Clear b size r → size = 0 ∨ r.isSome → r ≠ some payload → h.Calm b v := by
    intro r m hr hpos
    have hanswer : Action.Meets (fun _ => True) (m >>= fun _ => pure r) fun x _ => x = r :=
      Action.Meets.anyway fun _ _ _ x hx => (Except.ok.inj hx).symm
    refine hanswer.mono (fun _ _ => trivial) fun x h hx _ htakes hne => ?_
    rcases hr with rfl | rfl
    · rw [hx] at htakes
      exact absurd htakes (by simpa using hpos)
    · exact absurd hx hne
  unfold resize
  refine Action.Meets.bind (Calms.note _ _).keeps fun _ => ?_
  by_cases hzero : size = 0
  · simp only [if_pos hzero]
    refine Action.Meets.bind (free_forgets hat hb v) fun _ => ?_
    exact fun h hc _ _ _ _ _ => hc
  · simp only [if_neg hzero, hat]
    refine Action.Meets.bind Calms.size.keeps fun old => ?_
    cases hsized : Block.sizeFor size with
    | none => exact hstays none (pure ()) (Or.inl rfl) hzero
    | some new =>
      by_cases heq : new = old
      · simp only [if_pos heq]
        exact hstays (some payload) (pure ()) (Or.inr rfl) hzero
      · by_cases hcut : new < old
        · simp only [if_neg heq, if_pos hcut]
          exact hstays _ _ (Or.inr rfl) hzero
        · simp only [if_neg heq, if_neg hcut]
          refine Action.Meets.bind (Calms.next hb).keeps fun after => ?_
          refine Action.Meets.bind (Calms.load after).keeps fun tag => ?_
          refine Action.Meets.bind Calms.word.keeps fun available => ?_
          refine Action.Meets.bind Calms.check.keeps fun idle => ?_
          by_cases hfits : (idle && decide (new ≤ available)) = true
          · rw [if_pos hfits]
            exact hstays _ _ (Or.inr rfl) hzero
          · rw [if_neg hfits]
            refine (move_forgets hat hb v).mono (fun _ hp => hp) ?_
            intro r h hcalm hclear htakes _
            exact hcalm hclear (htakes.resolve_left hzero)

end Arena

/-- None of the bytes of the lease's block belong to a live one. -/
def Lease.Vacant (l : Lease) (live : List Lease) : Prop :=
  ∀ l' ∈ live, l'.block.1 + l'.block.2 ≤ l.block.1 ∨ l.block.1 + l.block.2 ≤ l'.block.1

namespace Held

variable {h : Arena (Reservation sys)} {live : List Lease} {blocks : List Piece} {l : Lease} {c : Call}
  {r : Option Nat} {b w : Nat}

lemma calm (hh : Held Reservation.Paged h live blocks) (b : Nat) : h.Calm b (h.memory.word b) := by
  refine ⟨hh.sound.valid, hh.sound.aligned, ?_, hh.sound.floor_mod, ?_, Or.inl rfl⟩
  · rw [hh.sound.ends]
    exact Nat.mul_mod_left _ _
  · intro c hc
    obtain ⟨pre, p, post, rfl, rfl⟩ := mem_heads_iff.mp (hh.sound.cursor c hc)
    have hal := hh.sound.aligned
    have hpre := (tiles_append.mp hh.sound.chained.tiles).1.span_mod
    simp only [blockUnit] at *
    omega

lemma block_lt (hh : Held Reservation.Paged h live blocks) (hl : l ∈ live) :
    l.block.1 + l.block.2 < Word.limit ∧ Block.ofPayload l.payload = l.block.1 ∧
      Block.payload l.block.1 = l.payload := by
  obtain ⟨_, hhigh, _, hat⟩ := hh.block_address hl
  have hlt := hh.sound.toLaid.stop_lt_limit
  have hle := (taken_whole hh.sound.chained.tiles (hh.mem_taken hl)).le
  have hroom : l.block.1 + wordSize < Word.limit := by
    simp only [minBlockSize, wordSize] at *
    omega
  refine ⟨by omega, ?_, (Block.payload_eq hroom).trans hat.symm⟩
  rw [hat]
  exact Block.ofPayload_eq hroom

/-- A call that is given another pointer leaves a word outside all live blocks alone. -/
theorem calm_serve (hh : Held Reservation.Paged h live blocks) (hb : b % blockUnit = 0)
    (hout : ∀ l ∈ live, b < l.block.1 ∨ l.block.1 + l.block.2 ≤ b) (hcalm : h.Calm b w)
    (hc : c.Valid live) (hanswer : (c.action h).result = .ok r) (hclear : Clear b c.size r) :
    (c.action h).arena.Calm b w := by
  have hunit : ∀ l ∈ live, Block.ofPayload l.payload % blockUnit = 0 := by
    intro l hl
    rw [(hh.block_lt hl).2.1]
    exact (hh.block_address hl).2.2.1
  cases c with
  | allocate size => exact CalmsBeside.allocate hb h hcalm r hanswer hclear
  | allocateZeroed count size => exact CalmsBeside.allocateZeroed hb h hcalm r hanswer hclear
  | free payload =>
    rcases payload with _ | p
    · have hrun : Calms sys b w (Call.free none).action fun _ => True :=
        ((Calms.note _ _).andThen fun _ => Calms.pure trivial).andThen fun _ => Calms.pure trivial
      exact (hrun h hcalm r hanswer).1
    · obtain ⟨l, hl, rfl⟩ := List.mem_map.mp (hc p rfl)
      have hrun : Calms sys b w (Call.free (some l.payload)).action fun _ => True :=
        (Calms.free hb (hunit l hl)).andThen fun _ => Calms.pure trivial
      exact (hrun h hcalm r hanswer).1
  | resize payload size =>
    rcases payload with _ | p
    · refine CalmsBeside.bind (Calms.note _ _) (fun _ _ => ?_) h hcalm r hanswer hclear
      exact CalmsBeside.allocate hb
    · obtain ⟨l, hl, rfl⟩ := List.mem_map.mp (hc p rfl)
      obtain ⟨hlt, hat, _⟩ := hh.block_lt hl
      have hle := (taken_whole hh.sound.chained.tiles (hh.mem_taken hl)).le
      refine CalmsBeside.resize hb hat ?_ hlt (hout l hl) ?_ h ⟨hcalm, ?_⟩ r hanswer hclear
      · rw [← hat]
        exact hunit l hl
      · simp only [minBlockSize] at hle
        omega
      · exact hh.word_header hl

/-- A call that ends a lease leaves an idle word for its header. -/
theorem calm_ended (hh : Held Reservation.Paged h live blocks) (hl : l ∈ c.ended live r)
    (hanswer : (c.action h).result = .ok r) (hclear : Clear l.block.1 c.size r) :
    (c.action h).arena.Calm l.block.1 0 := by
  unfold Call.ended at hl
  split at hl
  next htakes =>
    obtain ⟨hmem, hpointer⟩ := List.mem_filter.mp hl
    have hpointer : some l.payload = c.pointer := by simpa using hpointer
    obtain ⟨_, hat, hback⟩ := hh.block_lt hmem
    have hunit := (hh.block_address hmem).2.2.1
    have hcalm := hh.calm l.block.1
    cases c with
    | allocate size => exact absurd hpointer (by simp [Call.pointer])
    | allocateZeroed count size => exact absurd hpointer (by simp [Call.pointer])
    | free payload =>
      obtain rfl : payload = some l.payload := hpointer.symm
      exact (Arena.free_forgets hat hunit 0).bind (fun _ _ hc _ _ => hc) h hcalm r hanswer
    | resize payload size =>
      obtain rfl : payload = some l.payload := hpointer.symm
      refine Arena.resize_forgets hat hunit 0 h hcalm r hanswer hclear ?_ ?_
      · simpa [Call.takes] using htakes
      · rintro rfl
        exact (hclear _ rfl).1 hback.symm
  next => exact absurd hl List.not_mem_nil

end Held

/-- Freeing a pointer ends its lease and nothing comes to where its block was. -/
lemma Held.free_ends {σ : Type} [Segment σ] {P : σ → Prop} {h : Heap σ} {live : List Lease}
    {blocks : List Piece} {l : Lease} (hP : Segment.Exact P) (hh : Held P h.arena live blocks)
    (hl : l ∈ live) :
    (Call.free (some l.payload)).Valid live ∧
      (h.serve (.free (some l.payload))).result = .ok none ∧
      l ∈ (Call.free (some l.payload)).ended live none ∧
      l.Vacant ((Call.free (some l.payload)).settle live none) := by
  have hvalid := Call.valid_free (List.mem_map_of_mem hl)
  refine ⟨hvalid, hh.free_answers hP hvalid, ?_, fun l' hl' => ?_⟩
  · rw [hh.ended_eq hl rfl rfl]
    exact List.mem_singleton_self l
  · obtain ⟨hmem, hne⟩ := List.mem_filter.mp hl'
    have hne : some l'.payload ≠ some l.payload := of_decide_eq_true hne
    exact hh.blocks_apart hmem hl fun heq => hne (congrArg some heq)

variable {segment : Reservation sys} {memory : Memory} {config : Config} {h : Heap (Reservation sys)}
  {live : List Lease} {l : Lease}

/-- The heaps that a session leads to after a lease was ended, with the leases that are live then,
as long as none of them came to where its block was. -/
inductive Stale (segment : Reservation sys) (memory : Memory) (config : Config) :
    Heap (Reservation sys) → List Lease → Lease → Prop where
  | ended {h : Heap (Reservation sys)} {live : List Lease} {l : Lease} {answer : Option Nat} (c : Call)
      (before : Reach segment memory config h live) (valid : c.Valid live)
      (served : (h.serve c).result = .ok answer) (freed : l ∈ c.ended live answer)
      (vacant : l.Vacant (c.settle live answer)) :
      Stale segment memory config (h.serve c).state (c.settle live answer) l
  | serve {h : Heap (Reservation sys)} {live : List Lease} {l : Lease} {answer : Option Nat} (c : Call)
      (before : Stale segment memory config h live l) (valid : c.Valid live)
      (served : (h.serve c).result = .ok answer) (vacant : l.Vacant (c.settle live answer)) :
      Stale segment memory config (h.serve c).state (c.settle live answer) l
  | write {h : Heap (Reservation sys)} {live : List Lease} {l l' : Lease} (a count : Nat)
      (f : Nat → UInt8) (before : Stale segment memory config h live l) (held : l' ∈ live)
      (low : l'.payload ≤ a) (high : a + count ≤ l'.payload + h.arena.usable l'.payload) :
      Stale segment memory config { h with arena := h.arena.write a count f } live l

namespace Stale

lemma reach (hs : Stale segment memory config h live l) : Reach segment memory config h live := by
  induction hs with
  | ended c before valid served _ _ => exact .serve c before valid served
  | serve c _ valid served _ ih => exact .serve c ih valid served
  | write a count f _ mem low high ih => exact .write a count f ih mem low high

/-- A pointer is stale as soon as it is freed. -/
theorem of_freed (hsegment : segment.Paged) (hr : Reach segment memory config h live)
    (hl : l ∈ live) :
    Stale segment memory config (h.serve (.free (some l.payload))).state
      ((Call.free (some l.payload)).settle live none) l := by
  obtain ⟨blocks, hh⟩ := hr.held Reservation.exact_paged hsegment
  obtain ⟨hvalid, hserved, hended, hvacant⟩ := hh.free_ends Reservation.exact_paged hl
  exact .ended _ hr hvalid hserved hended hvacant

/-- What is known of the place of a block that was freed. -/
structure Place (h : Arena (Reservation sys)) (live : List Lease) (l : Lease) : Prop where
  vacant : l.Vacant live
  aligned : l.block.1 % blockUnit = 0
  word_le : wordSize ≤ l.block.1
  lt_limit : l.block.1 < Word.limit
  owner : Block.ofPayload l.payload = l.block.1
  payload : Block.payload l.block.1 = l.payload
  calm : h.Calm l.block.1 0

lemma clear_of_vacant {answer : Option Nat} {c : Call} (hvacant : l.Vacant (c.settle live answer))
    (hheld : ∀ l' ∈ c.settle live answer, wordSize ≤ l'.payload)
    (hback : Block.payload l.block.1 = l.payload) : Clear l.block.1 c.size answer := by
  intro p hp
  have hmem : (⟨p, c.size⟩ : Lease) ∈ c.settle live answer := by
    obtain rfl := Option.mem_def.mp hp
    exact List.mem_append_left _ (List.mem_singleton.mpr rfl)
  have hle := hheld _ hmem
  have hapart := hvacant _ hmem
  have hsize := Block.le_leastSize c.size
  have hsize' := Block.le_leastSize l.size
  rw [hback]
  simp only [Lease.block, wordSize] at *
  exact ⟨by omega, by omega⟩

/-- The header of a block that was freed is idle as long as nothing comes to its place. -/
theorem place (hsegment : segment.Paged) (hs : Stale segment memory config h live l) :
    Place h.arena live l := by
  induction hs with
  | @ended h live l answer c before valid served freed vacant =>
    obtain ⟨blocks, hh⟩ := before.held Reservation.exact_paged hsegment
    obtain ⟨_, hh'⟩ := (before.serve c valid served).held Reservation.exact_paged hsegment
    have hl := (c.ended_kept live answer).mem_iff.mp (List.mem_append_left _ freed)
    obtain ⟨hlow, hhigh, hmod, hat⟩ := hh.block_address hl
    obtain ⟨hlt, howner, hback⟩ := hh.block_lt hl
    have hstart := hh.sound.le_start
    obtain ⟨hresult, hstate⟩ := h.serve_eq c
    refine ⟨vacant, hmod, ?_, by omega, howner, hback, ?_⟩
    · simp only [blockUnit, wordSize] at *
      omega
    · rw [hstate]
      exact hh.calm_ended freed (hresult.symm.trans served)
        (clear_of_vacant vacant hh'.word_le hback)
  | @serve h live l answer c before valid served vacant ih =>
    obtain ⟨blocks, hh⟩ := before.reach.held Reservation.exact_paged hsegment
    obtain ⟨_, hh'⟩ := (before.reach.serve c valid served).held Reservation.exact_paged hsegment
    obtain ⟨hresult, hstate⟩ := h.serve_eq c
    refine ⟨vacant, ih.aligned, ih.word_le, ih.lt_limit, ih.owner, ih.payload, ?_⟩
    rw [hstate]
    refine hh.calm_serve ih.aligned (fun l' hl' => ?_) ih.calm valid (hresult.symm.trans served)
      (clear_of_vacant vacant hh'.word_le ih.payload)
    have hapart := ih.vacant l' hl'
    have hsize := Block.le_leastSize l.size
    simp only [Lease.block, wordSize] at *
    omega
  | @write h live l l' a count f before held low high ih =>
    obtain ⟨blocks, hh⟩ := before.reach.held Reservation.exact_paged hsegment
    refine ⟨ih.vacant, ih.aligned, ih.word_le, ih.lt_limit, ih.owner, ih.payload, ?_⟩
    have husable := hh.usable_eq held
    have hle := hh.word_le l' held
    have hapart := ih.vacant l' held
    have hsize := Block.le_leastSize l.size
    have hcalm := ih.calm
    refine ⟨hcalm.paged, hcalm.start, hcalm.stop, hcalm.floor, hcalm.cursor, ?_⟩
    have hsame : (h.arena.write a count f).memory.word l.block.1 = h.arena.memory.word l.block.1 := by
      refine Memory.word_congr fun x hx hx' => ?_
      refine (Memory.read_tabulate _ _ _ _ _).trans (if_neg ?_)
      simp only [Lease.block, wordSize] at *
      omega
    rw [hsame]
    exact hcalm.word

end Stale

/-- The heaps hold the same bytes within the same bounds, with the same cursor, and a check does not
tell them apart. -/
structure Heap.Same (h h' : Heap (Reservation sys)) : Prop where
  bytes : ∀ a, h'.arena.memory.read a = h.arena.memory.read a
  segment : h'.arena.segment = h.arena.segment
  start : h'.arena.start = h.arena.start
  stop : h'.arena.stop = h.arena.stop
  floor : h'.arena.floor = h.arena.floor
  placement : h'.arena.placement = h.arena.placement
  check : h'.check = h.check

namespace Stale

/-- Freeing a stale pointer is always answered. It clears the header if that is a sentinel, and
changes nothing otherwise. -/
lemma free_state (hsegment : segment.Paged) (hs : Stale segment memory config h live l) :
    ∃ m, (h.free (some l.payload)).result = .ok () ∧
      (h.free (some l.payload)).state = ⟨h.arena.withMemory m⟩ ∧
      (h.arena.memory.word (l.payload - wordSize) = Tag.sentinel.bits →
        m.word (l.payload - wordSize) = 0) ∧
      (h.arena.memory.word (l.payload - wordSize) ≠ Tag.sentinel.bits → m = h.arena.memory) := by
  obtain ⟨blocks, hh⟩ := hs.reach.held Reservation.exact_paged hsegment
  have hp := hs.place hsegment
  have hidle : Idle (h.arena.memory.word l.block.1) :=
    hp.calm.word.elim (fun hzero => Or.inl (by rw [hzero]; rfl)) id
  obtain ⟨m, ⟨hresult, harena⟩, hcleared, hkept⟩ :=
    Arena.free_idle hp.owner hp.word_le hp.lt_limit hh.sound.floor_le hidle
  obtain ⟨hfresult, hfstate⟩ := h.run_eq (Arena.free (some l.payload))
  rw [harena] at hfstate
  exact ⟨m, hfresult.trans hresult, hfstate, hcleared, hkept⟩

/-- Over a reservation, freeing a stale pointer is always answered, and it is ignored exactly if its
header is no sentinel. -/
theorem free_ignored_iff (hsegment : segment.Paged)
    (hs : Stale segment memory config h live l) :
    (h.free (some l.payload)).result = .ok () ∧
      (h.Same (h.free (some l.payload)).state ↔
        h.arena.memory.word (l.payload - wordSize) ≠ Tag.sentinel.bits) := by
  obtain ⟨m, hresult, hstate, hcleared, hkept⟩ := hs.free_state hsegment
  refine ⟨hresult, ?_⟩
  rw [hstate]
  constructor
  · intro hsame hsentinel
    have hword : m.word (l.payload - wordSize) = h.arena.memory.word (l.payload - wordSize) :=
      Memory.word_congr fun a _ _ => hsame.bytes a
    rw [hcleared hsentinel, hsentinel] at hword
    exact absurd hword (by decide)
  · intro hfree
    obtain rfl := hkept hfree
    have hback : (⟨h.arena.withMemory h.arena.memory⟩ : Heap (Reservation sys)) = h := rfl
    rw [hback]
    exact ⟨fun _ => rfl, rfl, rfl, rfl, rfl, rfl, rfl⟩

/-- A block that stands alone after it was freed. -/
theorem free_ignored_alone : ∃ (h : Heap (Reservation .common)) (live : List Lease),
    Stale ⟨0x100000, 65536, 0, 4096⟩ Reservation.blank Config.standard h live ⟨0x100028, 100⟩ ∧
      (h.free (some 0x100028)).result = .ok () ∧ h.Same (h.free (some 0x100028)).state := by
  have hplayed : (Heap.session (⟨0x100000, 65536, 0, 4096⟩ : Reservation .common) Reservation.blank
      Config.standard [.allocate 100, .allocate 200]).map (fun s => (s.2,
        (s.1.serve (.free (some 0x100028))).state.arena.memory.word 0x100020)) =
      some ([⟨0x1000a8, 200⟩, ⟨0x100028, 100⟩], 128) := by
    decide +kernel
  obtain ⟨⟨h, live⟩, hs, hfacts⟩ := Option.map_eq_some_iff.mp hplayed
  obtain ⟨rfl, hword⟩ := Prod.mk.inj hfacts
  have hsegment : (⟨0x100000, 65536, 0, 4096⟩ : Reservation .common).Paged :=
    Reservation.paged_common (by decide)
  have hstale := of_freed hsegment (.of_session hs) (l := ⟨0x100028, 100⟩) (by simp)
  obtain ⟨hanswer, hignored⟩ := free_ignored_iff hsegment hstale
  have hheader : 0x100028 - wordSize = 0x100020 := rfl
  dsimp only at hword hstale hanswer hignored
  rw [hheader, hword] at hignored
  exact ⟨_, _, hstale, hanswer, hignored.mpr (by decide)⟩

/-- The last block is given back to the segment when it is freed, and the end sentinel takes its
header's place. Freeing it again destroys the heap. -/
theorem free_not_ignored : ∃ (h : Heap (Reservation .common)) (live : List Lease),
    Heap.session (⟨0x100000, 65536, 0, 4096⟩ : Reservation .common) Reservation.blank Config.standard
      [.allocate 944, .allocate 1008] = some (h, live) ∧
    Stale ⟨0x100000, 65536, 0, 4096⟩ Reservation.blank Config.standard
      (h.serve (.free (some 0x1003e8))).state
      ((Call.free (some 0x1003e8)).settle live none) ⟨0x1003e8, 1008⟩ ∧
    ¬(h.serve (.free (some 0x1003e8))).state.Same
      ((h.serve (.free (some 0x1003e8))).state.free (some 0x1003e8)).state := by
  have hplayed : (Heap.session (⟨0x100000, 65536, 0, 4096⟩ : Reservation .common) Reservation.blank
      Config.standard [.allocate 944, .allocate 1008]).map (fun s => (s.2,
        (s.1.serve (.free (some 0x1003e8))).state.check.toOption.isSome,
        ((s.1.serve (.free (some 0x1003e8))).state.free
          (some 0x1003e8)).state.check.toOption.isSome)) =
      some ([⟨0x1003e8, 1008⟩, ⟨0x100028, 944⟩], true, false) := by
    decide +kernel
  obtain ⟨⟨h, live⟩, hs, hfacts⟩ := Option.map_eq_some_iff.mp hplayed
  obtain ⟨rfl, hfacts⟩ := Prod.mk.inj hfacts
  obtain ⟨hbefore, hafter⟩ := Prod.mk.inj hfacts
  have hsegment : (⟨0x100000, 65536, 0, 4096⟩ : Reservation .common).Paged :=
    Reservation.paged_common (by decide)
  refine ⟨h, _, hs, of_freed hsegment (.of_session hs) (l := ⟨0x1003e8, 1008⟩) (by simp), ?_⟩
  intro hsame
  rw [hsame.check, hbefore] at hafter
  exact absurd hafter (by decide)

end Stale
end BlockHeap
