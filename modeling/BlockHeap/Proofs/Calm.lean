import BlockHeap.Proofs.Allocate

/-!
# Words at rest

Follows one word at a multiple of the block unit through the operations. All that they write at such
a place are headers and end sentinels, and segments only ever clear it; so unless an allocated block
is made right there, the word stays as it is or becomes an idle one, the tag of a free block or the
sentinel. Nothing needs to be known about the chain for this, only that addresses and sizes are
multiples of the block unit.
-/

namespace BlockHeap

variable {sys : System}

lemma Word.forward_mod {a n : Nat} (ha : a % blockUnit = 0) (hn : n % blockUnit = 0) :
    Word.forward a n % blockUnit = 0 := by
  unfold Word.forward
  simp only [blockUnit, Word.limit] at *
  omega

lemma Word.backward_mod {a n : Nat} (ha : a % blockUnit = 0) (hn : n % blockUnit = 0) :
    Word.backward a n % blockUnit = 0 := by
  unfold Word.backward
  simp only [blockUnit, Word.limit] at *
  omega

lemma Tag.pack_ok {n : Nat} {status : Status} {tag : Tag} (h : Tag.pack n status = .ok tag) :
    n % blockUnit = 0 ∧ tag.bits = n + status.bits := by
  unfold Tag.pack at h
  split at h
  next hsize =>
    obtain rfl := Except.ok.inj h
    exact ⟨hsize, rfl⟩
  next => exact absurd h (by simp)

lemma Block.footer_mod {block n : Nat} (hblock : block % blockUnit = 0) (hn : n % blockUnit = 0) :
    Block.footer block n % blockUnit = blockUnit - wordSize := by
  unfold Block.footer Word.forward Word.backward
  simp only [blockUnit, wordSize, Word.limit] at *
  omega

lemma Block.word_mod {block : Nat} (hblock : block % blockUnit = 0) : block % wordSize = 0 := by
  simp only [blockUnit, wordSize] at *
  omega

lemma Block.footer_word_mod {block n : Nat} (hblock : block % blockUnit = 0)
    (hn : n % blockUnit = 0) : Block.footer block n % wordSize = 0 := by
  have hfooter := Block.footer_mod hblock hn
  simp only [blockUnit, wordSize] at *
  omega

/-- No block begins where another one has its footer. -/
lemma Block.ne_footer {b block n : Nat} (hb : b % blockUnit = 0) (hblock : block % blockUnit = 0)
    (hn : n % blockUnit = 0) : b ≠ Block.footer block n := by
  have hfooter := Block.footer_mod hblock hn
  intro heq
  rw [← heq, hb] at hfooter
  exact absurd hfooter (by decide)

lemma Memory.word_setWord_aligned (m : Memory) {a b : Nat} (v : Nat) (ha : a % wordSize = 0)
    (hb : b % wordSize = 0) :
    (m.setWord a v).word b = if b = a then v % Word.limit else m.word b := by
  split
  next heq => rw [heq, Memory.word_setWord]
  next hne =>
    refine Memory.word_setWord_of_disjoint ?_
    simp only [wordSize] at *
    omega

lemma Memory.word_eq_zero {m : Memory} {a : Nat} (h : ∀ b, a ≤ b → b < a + wordSize → m.read b = 0) :
    m.word a = 0 := by
  have hnumber : m.number a wordSize = 0 % 256 ^ wordSize :=
    number_eq_of_bytes fun i hi => by
      rw [h (a + i) (by omega) (by omega), Nat.zero_shiftRight]
      rfl
  exact hnumber

/-- A word at a multiple of the block unit is dropped with its page or not at all. -/
lemma Reservation.word_shrink {r : Reservation sys} {b : Nat} (bytes : Nat) (m : Memory)
    (hr : r.Paged) (hb : b % blockUnit = 0) :
    (Segment.shrink bytes r m).memory.word b = m.word b ∨
      (Segment.shrink bytes r m).memory.word b = 0 := by
  have hword := hr.word_dvd
  have hbase := (hword.trans (Nat.dvd_of_mod_eq_zero hr.base_mod))
  have hlow := hword.trans (Nat.dvd_of_mod_eq_zero (pageCeil_mod r.pageSize (r.committed - bytes)))
  have hhigh := hword.trans (Nat.dvd_of_mod_eq_zero (pageCeil_mod r.pageSize r.committed))
  simp only [wordSize, blockUnit] at *
  simp only [Segment.shrink]
  split
  next => exact Or.inl rfl
  next =>
    rcases release_cases hr.lawful hr.pageSize_eq hr.base_mod (r.committed - bytes) m with
      ⟨_, hread⟩ | ⟨_, hsame⟩
    · by_cases hin : r.base + pageCeil r.pageSize (r.committed - bytes) ≤ b ∧
          b < r.base + pageCeil r.pageSize r.committed
      · right
        refine Memory.word_eq_zero fun a ha ha' => ?_
        simp only [wordSize] at ha'
        rw [hread, if_pos (by omega)]
      · left
        refine Memory.word_congr fun a ha ha' => ?_
        simp only [wordSize] at ha'
        rw [hread, if_neg (by omega)]
    · left
      rw [hsame]

namespace Action

variable {σ α β : Type} {Pre : Arena σ → Prop} {M : α → Arena σ → Prop}
  {Post : β → Arena σ → Prop}

/-- Whenever the action answers from an arena with `Pre`, its answer and its arena satisfy `Post`. -/
def Meets (Pre : Arena σ → Prop) (m : Action σ α) (Post : α → Arena σ → Prop) : Prop :=
  ∀ h, Pre h → ∀ x, (m h).result = .ok x → Post x (m h).arena

lemma Meets.bind {m : Action σ α} {f : α → Action σ β} (hm : Meets Pre m M)
    (hf : ∀ x, Meets (M x) (f x) Post) : Meets Pre (m >>= f) Post := by
  intro h hpre y hy
  rcases hrun : m h with ⟨fault | x, h', events⟩
  · rw [bind_of_error hrun] at hy
    exact absurd hy (by simp)
  · have hmid := hm h hpre x (by rw [hrun])
    rw [hrun] at hmid
    rw [bind_of_ok hrun] at hy ⊢
    exact hf x h' hmid y hy

/-- What comes before does not matter for an answer that is the same after all of it. -/
lemma Meets.anyway {m : Action σ α} {f : α → Action σ β} {Q : β → Prop}
    (hf : ∀ x, Meets (fun _ => True) (f x) fun y _ => Q y) :
    Meets (fun _ => True) (m >>= f) fun y _ => Q y :=
  Meets.bind (M := fun _ _ => True) (fun _ _ _ _ => trivial) hf

/-- A precondition that does not speak of the arena is a hypothesis. -/
lemma Meets.given {p : Prop} {m : Action σ α} (hm : p → Meets Pre m M) :
    Meets (fun h => Pre h ∧ p) m M :=
  fun h hp => hm hp.2 h hp.1

lemma Meets.mono {Pre' : Arena σ → Prop} {Post' : α → Arena σ → Prop} {m : Action σ α}
    (hm : Meets Pre m M) (hpre : ∀ h, Pre' h → Pre h) (hpost : ∀ x h, M x h → Post' x h) :
    Meets Pre' m Post' :=
  fun h hp x hx => hpost x _ (hm h (hpre h hp) x hx)

/-- Whether or not it is logged, a notice changes nothing. -/
lemma Meets.note (level : Verbosity) (n : Notice) :
    Meets Pre (Action.diag level (Pure.pure n)) fun _ h => Pre h := by
  intro h hpre _ _
  rw [(Yields.note level n h).2]
  exact hpre

end Action

/-- The word is the tag of a free block, or the sentinel. -/
def Idle (w : Nat) : Prop :=
  w % blockUnit = 0 ∨ w = Tag.sentinel.bits

/-- Addresses in the arena are multiples of the block unit, and the word at `b` is `w` or idle. -/
structure Arena.Calm (b w : Nat) (h : Arena (Reservation sys)) : Prop where
  paged : h.segment.Paged
  start : h.start % blockUnit = 0
  stop : h.stop % blockUnit = 0
  floor : h.floor % blockUnit = 0
  cursor : ∀ c, h.placement.cursor = some c → c % blockUnit = 0
  word : h.memory.word b = w ∨ Idle (h.memory.word b)

/-- The action keeps the arena calm, and its answer satisfies `Q`. -/
def Calms (sys : System) {α : Type} (b w : Nat) (m : Action (Reservation sys) α) (Q : α → Prop) :
    Prop :=
  Action.Meets (Arena.Calm b w) m fun x h => h.Calm b w ∧ Q x

namespace Calms

variable {α β : Type} {b w : Nat} {m : Action (Reservation sys) α}
  {f : α → Action (Reservation sys) β} {Q : α → Prop} {R : β → Prop}

lemma bind (hm : Calms sys b w m Q) (hf : ∀ x, Q x → Calms sys b w (f x) R) :
    Calms sys b w (m >>= f) R :=
  Action.Meets.bind hm fun x h hx => hf x hx.2 h hx.1

lemma andThen (hm : Calms sys b w m fun _ => True) (hf : ∀ x, Calms sys b w (f x) R) :
    Calms sys b w (m >>= f) R :=
  hm.bind fun x _ => hf x

lemma pure {x : α} (hx : Q x) : Calms sys b w (Pure.pure x) Q := by
  intro h hcalm y hy
  obtain rfl := Except.ok.inj hy
  exact ⟨hcalm, hx⟩

lemma keeps (hm : Calms sys b w m Q) : Action.Meets (Arena.Calm b w) m fun _ h => h.Calm b w :=
  Action.Meets.mono hm (fun _ hp => hp) fun _ _ hx => hx.1

lemma get : Calms sys b w Action.get (Arena.Calm b w) := by
  intro h hcalm y hy
  obtain rfl := Except.ok.inj hy
  exact ⟨hcalm, hcalm⟩

lemma log (severity : Severity) (n : Notice) :
    Calms sys b w (Action.log severity n) fun _ => True :=
  fun _ hcalm _ _ => ⟨hcalm, trivial⟩

lemma modify {g : Arena (Reservation sys) → Arena (Reservation sys)}
    (hg : ∀ h, h.Calm b w → (g h).Calm b w) : Calms sys b w (Action.modify g) fun _ => True :=
  fun h hcalm _ _ => ⟨hg h hcalm, trivial⟩

lemma fault (e : Fault) : Calms sys b w (Action.fault e) Q :=
  fun _ _ _ hx => absurd hx (by simp [Action.fault, Action.ofExcept])

lemma lift {e : Except Fault α} (he : ∀ x, e = .ok x → Q x) : Calms sys b w (liftM e) Q :=
  fun _ hcalm x hx => ⟨hcalm, he x hx⟩

lemma ite {p : Prop} [Decidable p] {m' : Action (Reservation sys) α} (ht : p → Calms sys b w m Q)
    (hf : ¬p → Calms sys b w m' Q) : Calms sys b w (if p then m else m') Q := by
  by_cases hp : p
  · rw [if_pos hp]
    exact ht hp
  · rw [if_neg hp]
    exact hf hp

lemma diag (level : Verbosity) {notice : Action (Reservation sys) Notice}
    (hn : Calms sys b w notice fun _ => True) :
    Calms sys b w (Action.diag level notice) fun _ => True := by
  unfold Action.diag
  refine get.bind fun h _ => ite (fun _ => ?_) fun _ => pure trivial
  cases level.severity? with
  | none => exact pure trivial
  | some severity => exact hn.andThen fun n => log severity n

lemma note (level : Verbosity) (n : Notice) :
    Calms sys b w (Action.diag level (Pure.pure n)) fun _ => True :=
  diag level (pure trivial)

variable {block n : Nat}

lemma load (a : Nat) : Calms sys b w (Action.load a) fun _ => True :=
  fun _ hcalm _ _ => ⟨hcalm, trivial⟩

lemma store {a : Nat} {tag : Tag} (hb : b % blockUnit = 0) (ha : a % wordSize = 0)
    (htag : b = a → Idle tag.bits) : Calms sys b w (Action.store a tag) fun _ => True := by
  intro h hcalm _ _
  refine ⟨⟨hcalm.paged, hcalm.start, hcalm.stop, hcalm.floor, hcalm.cursor, ?_⟩, trivial⟩
  change (h.memory.setWord a tag.bits).word b = w ∨ Idle ((h.memory.setWord a tag.bits).word b)
  rw [Memory.word_setWord_aligned _ _ ha (Block.word_mod hb)]
  split
  next heq =>
    right
    rcases htag heq with hfree | hsentinel
    · left
      simp only [blockUnit, Word.limit] at *
      omega
    · right
      rw [hsentinel]
      rfl
  next => exact hcalm.word

/-- Writing both tags of a block. Only its header can be where the word is. -/
lemma mark {status : Status} (hb : b % blockUnit = 0) (hblock : block % blockUnit = 0)
    (hstatus : b = block → status = .free) :
    Calms sys b w (Block.mark block n status) fun _ => True := by
  unfold Block.mark
  refine (lift fun tag htag => Tag.pack_ok htag).bind ?_
  rintro tag ⟨hsize, hbits⟩
  refine (store hb (Block.word_mod hblock) fun heq => Or.inl ?_).andThen fun _ =>
    store hb (Block.footer_word_mod hblock hsize) fun heq =>
      absurd heq (Block.ne_footer hb hblock hsize)
  rw [hbits, hstatus heq]
  exact hsize

lemma size : Calms sys b w (Block.size block) (· % blockUnit = 0) := by
  unfold Block.size
  exact (load block).andThen fun tag => pure (Tag.size_mod tag)

lemma next (hblock : block % blockUnit = 0) : Calms sys b w (Block.next block) (· % blockUnit = 0) := by
  unfold Block.next
  exact Calms.size.bind fun n hn => pure (Word.forward_mod hblock hn)

lemma tagBefore : Calms sys b w (Block.tagBefore block) fun _ => True :=
  load _

lemma previous (hblock : block % blockUnit = 0) :
    Calms sys b w (Block.previous block) (· % blockUnit = 0) := by
  unfold Block.previous
  exact tagBefore.andThen fun tag => pure (Word.backward_mod hblock (Tag.size_mod tag))

lemma grow (bytes : Nat) : Calms sys b w (Action.grow bytes) fun _ => True := by
  intro h hcalm _ _
  have hpaged := Reservation.exact_paged.grow_valid bytes h.memory hcalm.paged
  refine ⟨⟨hpaged, hcalm.start, hcalm.stop, hcalm.floor, hcalm.cursor, ?_⟩, trivial⟩
  change (Segment.grow bytes h.segment h.memory).memory.word b = w ∨
    Idle ((Segment.grow bytes h.segment h.memory).memory.word b)
  have hsame : (Segment.grow bytes h.segment h.memory).memory = h.memory := by
    simp only [Segment.grow]
    split <;> rfl
  rw [hsame]
  exact hcalm.word

lemma shrink (hb : b % blockUnit = 0) (bytes : Nat) :
    Calms sys b w (Action.shrink bytes) fun _ => True := by
  intro h hcalm _ _
  have hpaged := Reservation.exact_paged.shrink_valid bytes h.memory hcalm.paged
  refine ⟨⟨hpaged, hcalm.start, hcalm.stop, hcalm.floor, hcalm.cursor, ?_⟩, trivial⟩
  change (Segment.shrink bytes h.segment h.memory).memory.word b = w ∨
    Idle ((Segment.shrink bytes h.segment h.memory).memory.word b)
  rcases Reservation.word_shrink bytes h.memory hcalm.paged hb with hsame | hzero
  · rw [hsame]
    exact hcalm.word
  · rw [hzero]
    exact Or.inr (Or.inl rfl)

/-- An answer is no address, or a multiple of the block unit. -/
def OnUnit (r : Option Nat) : Prop :=
  ∀ c ∈ r, c % blockUnit = 0

lemma onUnit_none : OnUnit none :=
  fun _ hc => absurd hc (by simp)

lemma onUnit_some (hblock : block % blockUnit = 0) : OnUnit (some block) := by
  intro c hc
  obtain rfl := Option.some.inj hc
  exact hblock

lemma check {e : Except Fault Bool} : Calms sys b w (liftM e) fun _ => True :=
  lift fun _ _ => trivial

lemma firstFit {stop steps : Nat} (hblock : block % blockUnit = 0) :
    Calms sys b w (Arena.firstFit stop n steps block) OnUnit := by
  induction steps generalizing block with
  | zero => exact fault _
  | succ steps ih =>
    unfold Arena.firstFit
    refine ite (fun _ => pure onUnit_none) fun _ => ?_
    refine (load block).andThen fun tag => check.andThen fun fit => ?_
    refine ite (fun _ => pure (onUnit_some hblock)) fun _ => ?_
    refine ite (fun _ => pure onUnit_none) fun _ => ?_
    exact ih (Word.forward_mod hblock (Tag.size_mod tag))

lemma bestFit {stop steps : Nat} {best : Option (Nat × Nat)} (hblock : block % blockUnit = 0)
    (hbest : OnUnit (best.map Prod.fst)) :
    Calms sys b w (Arena.bestFit stop n steps block best) OnUnit := by
  induction steps generalizing block best with
  | zero => exact fault _
  | succ steps ih =>
    have hcloser : ∀ slack, OnUnit ((Arena.closer best block slack).map Prod.fst) := by
      intro slack
      unfold Arena.closer
      rcases best with _ | ⟨other, least⟩
      · exact onUnit_some hblock
      · simp only
        split
        next => exact onUnit_some hblock
        next => exact hbest
    unfold Arena.bestFit
    refine ite (fun _ => pure hbest) fun _ => ?_
    refine (load block).andThen fun tag => check.andThen fun fit => ?_
    refine ite (fun _ => pure (onUnit_some hblock)) fun _ => ?_
    have hnext : OnUnit ((if fit = true then Arena.closer best block (tag.size - n)
        else best).map Prod.fst) := by
      split
      next => exact hcloser _
      next => exact hbest
    refine ite (fun _ => pure hnext) fun _ => ?_
    exact ih (Word.forward_mod hblock (Tag.size_mod tag)) hnext

lemma lap {start stop origin steps : Nat} (hstart : start % blockUnit = 0)
    (hblock : block % blockUnit = 0) :
    Calms sys b w (Arena.lap start stop n origin steps block) OnUnit := by
  induction steps generalizing block with
  | zero => exact fault _
  | succ steps ih =>
    unfold Arena.lap
    refine (load block).andThen fun tag => check.andThen fun fit => ?_
    refine ite (fun _ => pure (onUnit_some hblock)) fun _ => ?_
    refine ite (fun _ => pure onUnit_none) fun _ => ?_
    refine ih ?_
    split
    next => exact hstart
    next => exact Word.forward_mod hblock (Tag.size_mod tag)

lemma setCursor {cursor : Option Nat} (hcursor : OnUnit cursor) :
    Calms sys b w (Arena.setCursor cursor) fun _ => True :=
  modify fun _ hcalm =>
    ⟨hcalm.paged, hcalm.start, hcalm.stop, hcalm.floor, fun c hc => hcursor c hc, hcalm.word⟩

lemma nextFit {cursor : Option Nat} (hcursor : OnUnit cursor) :
    Calms sys b w (Arena.nextFit cursor n) OnUnit := by
  unfold Arena.nextFit
  refine get.bind fun h hcalm => ?_
  have horigin : h.origin cursor % blockUnit = 0 := by
    unfold Arena.origin
    rcases cursor with _ | c
    · exact hcalm.start
    · simp only
      split
      next => exact hcursor c rfl
      next => exact hcalm.start
  refine (lap hcalm.start horigin).bind fun found hfound => ?_
  refine (setCursor ?_).andThen fun _ => pure hfound
  rcases found with _ | c
  · exact onUnit_some horigin
  · exact hfound

lemma find : Calms sys b w (Arena.find n) OnUnit := by
  unfold Arena.find
  refine get.bind fun h hcalm => ?_
  cases hp : h.placement with
  | firstFit => exact firstFit hcalm.start
  | nextFit cursor =>
    refine nextFit fun c hc => hcalm.cursor c ?_
    rw [hp]
    exact hc
  | bestFit => exact bestFit hcalm.start onUnit_none

lemma pullCursor (hblock : block % blockUnit = 0) :
    Calms sys b w (Arena.pullCursor block n) fun _ => True := by
  unfold Arena.pullCursor
  refine get.bind fun h _ => ?_
  rcases h.placement with _ | (_ | cursor) | _
  · exact pure trivial
  · exact pure trivial
  · refine ite (fun _ => ?_) fun _ => pure trivial
    refine (lift (Q := fun _ => True) fun _ _ => trivial).andThen fun stop => ?_
    exact ite (fun _ => setCursor (onUnit_some hblock)) fun _ => pure trivial
  · exact pure trivial

lemma clipCursor (stop : Nat) : Calms sys b w (Arena.clipCursor stop) fun _ => True := by
  unfold Arena.clipCursor
  refine get.bind fun h _ => ?_
  rcases h.placement with _ | (_ | cursor) | _
  · exact pure trivial
  · exact pure trivial
  · exact ite (fun _ => setCursor onUnit_none) fun _ => pure trivial
  · exact pure trivial

lemma word {e : Except Fault Nat} : Calms sys b w (liftM e) fun _ => True :=
  lift fun _ _ => trivial

lemma wordAdd {x y : Nat} (hx : x % blockUnit = 0) (hy : y % blockUnit = 0) :
    Calms sys b w (liftM (Word.add x y)) (· % blockUnit = 0) := by
  refine lift fun z hz => ?_
  have hsum := Word.add_ok hz
  simp only [blockUnit] at *
  omega

lemma wordSub {x y : Nat} (hx : x % blockUnit = 0) (hy : y % blockUnit = 0) :
    Calms sys b w (liftM (Word.sub x y)) (· % blockUnit = 0) := by
  refine lift fun z hz => ?_
  have hdifference := Word.sub_ok hz
  simp only [blockUnit] at *
  omega

lemma endSentinel {a : Nat} : Calms sys b w (liftM (Arena.endSentinel a)) (· % blockUnit = 0) := by
  refine lift fun z hz => ?_
  unfold Arena.endSentinel at hz
  cases hsub : Word.sub a wordSize with
  | error _ =>
    rw [hsub] at hz
    exact absurd hz nofun
  | ok d =>
    rw [hsub] at hz
    obtain rfl := Except.ok.inj hz
    exact Nat.mul_mod_left _ _

lemma sentinel {a : Nat} (hb : b % blockUnit = 0) (ha : a % blockUnit = 0) :
    Calms sys b w (Action.store a .sentinel) fun _ => True := by
  refine store hb ?_ fun _ => Or.inr rfl
  simp only [blockUnit, wordSize] at *
  omega

lemma setStop {stop : Nat} (hstop : stop % blockUnit = 0) :
    Calms sys b w (Action.modify fun h => { h with stop := stop }) fun _ => True :=
  modify fun _ hcalm =>
    ⟨hcalm.paged, hcalm.start, hstop, hcalm.floor, hcalm.cursor, hcalm.word⟩

lemma annex (hb : b % blockUnit = 0) : Calms sys b w Arena.annex fun r => r.1 % blockUnit = 0 := by
  have hrest : ∀ (last : Nat × Nat) (stop : Nat), last.1 % blockUnit = 0 → stop % blockUnit = 0 →
      Calms sys b w (do
        Block.mark last.1 last.2 .free
        Action.store stop .sentinel
        Action.modify fun h => { h with stop := stop }
        return last) fun r => r.1 % blockUnit = 0 := fun last stop hlast hstop =>
    (mark hb hlast fun _ => rfl).andThen fun _ => (sentinel hb hstop).andThen fun _ =>
      (setStop hstop).andThen fun _ => pure hlast
  unfold Arena.annex
  refine get.bind fun h hcalm => endSentinel.bind fun stop hstop => ?_
  refine (wordSub hstop hcalm.stop).bind fun gained hgained => ?_
  refine tagBefore.andThen fun before => check.andThen fun free => ?_
  refine ite (fun _ => ?_) fun _ => ?_
  · refine (previous hcalm.stop).bind fun block hblock => ?_
    refine (wordAdd hgained (Tag.size_mod before)).bind fun total _ => ?_
    exact (pure (Q := fun r => r.1 % blockUnit = 0) hblock).bind fun last hlast =>
      hrest last stop hlast hstop
  · exact (pure (Q := fun r => r.1 % blockUnit = 0) hcalm.stop).bind fun last hlast =>
      hrest last stop hlast hstop

lemma enlargeWithin {rounds : Nat} (hb : b % blockUnit = 0) :
    Calms sys b w (Arena.enlargeWithin n rounds) OnUnit := by
  induction rounds with
  | zero => exact fault _
  | succ rounds ih =>
    unfold Arena.enlargeWithin
    refine get.bind fun h _ => (grow _).andThen fun refusal => ?_
    rcases refusal with _ | error
    · refine (annex hb).bind fun last hlast => (note _ _).andThen fun _ => ?_
      exact ite (fun _ => pure (onUnit_some hlast)) fun _ => ih
    · exact (log _ _).andThen fun _ => pure onUnit_none

lemma trim (hb : b % blockUnit = 0) (hblock : block % blockUnit = 0) (hn : n % blockUnit = 0) :
    Calms sys b w (Arena.trim block n) fun _ => True := by
  unfold Arena.trim
  refine get.bind fun h hcalm => word.andThen fun reach => ?_
  refine ite (fun _ => pure trivial) fun _ => ?_
  have hfloor := hcalm.floor
  have hkeep : (h.floor - block) % blockUnit = 0 := by
    simp only [blockUnit] at *
    omega
  refine (wordSub hn hkeep).bind fun bytes hbytes => ?_
  refine ite (fun _ => pure trivial) fun _ => ?_
  have hstop := Word.backward_mod hcalm.stop hbytes
  refine (shrink hb _).andThen fun refusal => ?_
  rcases refusal with _ | error
  · refine (note _ _).andThen fun _ => (setStop hstop).andThen fun _ => ?_
    have hrest : Calms sys b w (do
        Action.store (Word.backward h.stop bytes) .sentinel
        Arena.clipCursor (Word.backward h.stop bytes)) fun _ => True :=
      (sentinel hb hstop).andThen fun _ => clipCursor _
    exact ite (fun _ => (mark hb hblock fun _ => rfl).andThen fun _ => hrest) fun _ => hrest
  · exact log _ _

lemma mergeBefore (hb : b % blockUnit = 0) (hblock : block % blockUnit = 0)
    (hn : n % blockUnit = 0) :
    Calms sys b w (Arena.mergeBefore block n) fun r => r.1 % blockUnit = 0 ∧ r.2 % blockUnit = 0 := by
  unfold Arena.mergeBefore
  refine tagBefore.andThen fun before => check.andThen fun free => ?_
  refine ite (fun _ => ?_) fun _ => pure ⟨hblock, hn⟩
  refine (previous hblock).bind fun merged hmerged => ?_
  refine (wordAdd hn (Tag.size_mod before)).bind fun total htotal => ?_
  refine (note _ _).andThen fun _ => (mark hb hmerged fun _ => rfl).andThen fun _ => ?_
  exact pure ⟨hmerged, htotal⟩

lemma mergeAfter (hb : b % blockUnit = 0) (hblock : block % blockUnit = 0)
    (hn : n % blockUnit = 0) :
    Calms sys b w (Arena.mergeAfter block n) (· % blockUnit = 0) := by
  unfold Arena.mergeAfter
  refine (next hblock).bind fun after _ => (load after).andThen fun tag => ?_
  refine check.andThen fun free => ite (fun _ => ?_) fun _ => pure hn
  refine (wordAdd hn (Tag.size_mod tag)).bind fun total htotal => ?_
  refine (note _ _).andThen fun _ => (mark hb hblock fun _ => rfl).andThen fun _ => ?_
  exact pure htotal

lemma obtain (hb : b % blockUnit = 0) : Calms sys b w (Arena.obtain n) OnUnit := by
  unfold Arena.obtain
  refine find.bind fun found hfound => ?_
  rcases found with _ | block
  · exact enlargeWithin hb
  · exact pure hfound

lemma write {g : Arena (Reservation sys) → Memory} (hg : ∀ h, (g h).word b = h.memory.word b) :
    Calms sys b w (Action.modify fun h => { h with memory := g h }) fun _ => True := by
  refine modify fun h hcalm => ⟨hcalm.paged, hcalm.start, hcalm.stop, hcalm.floor, hcalm.cursor, ?_⟩
  change (g h).word b = w ∨ Idle ((g h).word b)
  rw [hg]
  exact hcalm.word

/-- What a release does after the block is marked as free. -/
lemma settle (hb : b % blockUnit = 0) (hblock : block % blockUnit = 0) (hn : n % blockUnit = 0) :
    Calms sys b w (do
      let (block, size) ← Arena.mergeBefore block n
      let size ← Arena.mergeAfter block size
      Arena.pullCursor block size
      Arena.trim block size) fun _ => True := by
  refine (mergeBefore hb hblock hn).bind fun last hlast => ?_
  refine (mergeAfter hb hlast.1 hlast.2).bind fun total htotal => ?_
  exact (pullCursor hlast.1).andThen fun _ => trim hb hlast.1 htotal

lemma release (hb : b % blockUnit = 0) (hblock : block % blockUnit = 0) :
    Calms sys b w (Arena.release block) fun _ => True := by
  unfold Arena.release
  refine Calms.size.bind fun n hn => ?_
  exact (mark hb hblock fun _ => rfl).andThen fun _ => settle hb hblock hn

lemma carve (hb : b % blockUnit = 0) (hblock : block % blockUnit = 0) (hn : n % blockUnit = 0)
    (hne : b ≠ block) : Calms sys b w (Arena.carve block n) fun _ => True := by
  have hmark : ∀ size, Calms sys b w (Block.mark block size .allocated) fun _ => True := fun size =>
    mark hb hblock fun heq => absurd heq hne
  unfold Arena.carve
  refine Calms.size.bind fun total _ => word.andThen fun least => ?_
  refine ite (fun _ => ?_) fun _ => hmark total
  refine (diag _ (word.andThen fun _ => pure trivial)).andThen fun _ => (hmark n).andThen fun _ => ?_
  exact mark hb (Word.forward_mod hblock hn) fun _ => rfl

lemma free {payload : Nat} (hb : b % blockUnit = 0)
    (hpayload : Block.ofPayload payload % blockUnit = 0) :
    Calms sys b w (Arena.free (some payload)) fun _ => True := by
  unfold Arena.free
  refine (note _ _).andThen fun _ => (load _).andThen fun tag => check.andThen fun idle => ?_
  exact ite (fun _ => log _ _) fun _ => release hb hpayload

lemma shrinkInPlace {old new : Nat} (hb : b % blockUnit = 0) (hblock : block % blockUnit = 0)
    (hnew : new % blockUnit = 0) (hne : b ≠ block) (hrest : b ≠ Word.forward block new) :
    Calms sys b w (Arena.shrinkInPlace block old new) fun _ => True := by
  have hforward := Word.forward_mod hblock hnew
  unfold Arena.shrinkInPlace
  refine (note _ _).andThen fun _ => (mark hb hblock fun heq => absurd heq hne).andThen fun _ => ?_
  refine (mark hb hforward fun heq => absurd heq hrest).andThen fun _ => ?_
  exact release hb hforward

lemma growInPlace {available new : Nat} (hb : b % blockUnit = 0) (hblock : block % blockUnit = 0)
    (hnew : new % blockUnit = 0) (hne : b ≠ block) :
    Calms sys b w (Arena.growInPlace block available new) fun _ => True := by
  unfold Arena.growInPlace
  refine (note _ _).andThen fun _ => (mark hb hblock fun heq => absurd heq hne).andThen fun _ => ?_
  exact (pullCursor hblock).andThen fun _ => carve hb hblock hnew hne

end Calms

end BlockHeap
