import BlockHeap.Proofs.Revive

/-!
# Blocks made astray

What becomes of the chain when a block is cut down or grown at an address where none begins. All
headers that are written then are at that address or above it, and so is the end sentinel if the heap
is trimmed. The chain below is walked as before, past the address, and no block of it begins there.
-/

namespace BlockHeap

variable {σ : Type} [Segment σ]

namespace Arena

variable {P : σ → Prop} {h g g' : Arena σ} {b c n new old : Nat} {m : Memory} {status : Status}
  {blocks : List Piece} {u : Unit}

/-- The words below `b` where headers and end sentinels are. -/
def SameHeaders (h : Arena σ) (b : Nat) (m : Memory) : Prop :=
  ∀ a, a % blockUnit = 0 → h.start ≤ a → a ≤ h.stop → a < b → m.word a = h.memory.word a

omit [Segment σ] in
/-- Writing a footer, or a header that is not below `b`. -/
lemma SameHeaders.setWord (hm : h.SameHeaders b m) (hc : c % wordSize = 0)
    (hout : c % blockUnit ≠ 0 ∨ b ≤ c) (v : Nat) : h.SameHeaders b (m.setWord c v) := by
  intro a ha hlow hhigh hlt
  rw [Memory.word_setWord_aligned _ _ hc (Block.word_mod ha), if_neg]
  · exact hm a ha hlow hhigh hlt
  · rintro rfl
    omega

/-- Nothing else than words changed, and no header below `b`. -/
structure Above (b : Nat) (h g : Arena σ) : Prop where
  segment : g.segment = h.segment
  start : g.start = h.start
  stop : g.stop = h.stop
  floor : g.floor = h.floor
  headers : h.SameHeaders b g.memory

/-- Both words that marking a block writes. -/
lemma mark_cases (hm : Action.Yields (Block.mark c n status) g u g') :
    n % blockUnit = 0 ∧ ∃ m, g' = g.withMemory m ∧
      m = (g.memory.setWord c (n + status.bits)).setWord (Block.footer c n) (n + status.bits) := by
  unfold Block.mark at hm
  obtain ⟨tag, g₁, ⟨htag, rfl⟩, hstore⟩ := hm.of_bind
  obtain ⟨hunit, hbits⟩ := Tag.pack_ok htag
  obtain ⟨_, g₂, ⟨_, rfl⟩, _, rfl⟩ := hstore.of_bind
  rw [← hbits]
  exact ⟨hunit, _, rfl, rfl⟩

/-- How carving a block ends, whatever is there. -/
lemma carve_cases (hm : Action.Yields (carve c n) g u g') :
    (n + minBlockSize ≤ Tag.size ⟨g.memory.word c⟩ ∧ ∃ g₁,
      Action.Yields (Block.mark c n .allocated) g () g₁ ∧
        Action.Yields (Block.mark (Word.forward c n) (Tag.size ⟨g.memory.word c⟩ - n) .free)
          g₁ u g') ∨
      Tag.size ⟨g.memory.word c⟩ < n + minBlockSize ∧
        Action.Yields (Block.mark c (Tag.size ⟨g.memory.word c⟩) .allocated) g u g' := by
  unfold carve at hm
  have hm₁ := (Action.Yields.size g c).step_iff.mp hm
  obtain ⟨least, _, ⟨hleast, rfl⟩, hm₂⟩ := hm₁.of_bind
  obtain rfl := Word.add_ok hleast
  split at hm₂
  next hroom =>
    have hrest : Word.sub (Tag.size ⟨g.memory.word c⟩) n = .ok (Tag.size ⟨g.memory.word c⟩ - n) :=
      Word.sub_of_le (by omega)
    have hnotice : Action.Yields (do
        return Notice.split c n (← Word.sub (Tag.size ⟨g.memory.word c⟩) n)) g
        (Notice.split c n (Tag.size ⟨g.memory.word c⟩ - n)) g :=
      (Action.Yields.lift hrest g).bind ⟨rfl, rfl⟩
    have hm₃ := (Action.Yields.diag .verbose hnotice).step_iff.mp hm₂
    obtain ⟨_, g₁, hfirst, hsecond⟩ := hm₃.of_bind
    exact Or.inl ⟨hroom, g₁, hfirst, hsecond⟩
  next hwhole => exact Or.inr ⟨Nat.lt_of_not_le hwhole, hm₂⟩

omit [Segment σ] in
lemma SameHeaders.mark (hm : h.SameHeaders b m) (hc : c % blockUnit = 0) (hle : b ≤ c)
    (hn : n % blockUnit = 0) (v : Nat) :
    h.SameHeaders b ((m.setWord c v).setWord (Block.footer c n) v) := by
  refine SameHeaders.setWord (hm.setWord (Block.word_mod hc) (Or.inr hle) v)
    (Block.footer_word_mod hc hn) (Or.inl ?_) v
  rw [Block.footer_mod hc hn]
  decide

omit [Segment σ] in
lemma word_marked {m' : Memory} {v : Nat} (hc : c % blockUnit = 0) (hn : n % blockUnit = 0)
    (hv : v < Word.limit) (hm : m' = (m.setWord c v).setWord (Block.footer c n) v) : m'.word c = v := by
  rw [hm, Memory.word_setWord_aligned _ _ (Block.footer_word_mod hc hn) (Block.word_mod hc),
    if_neg (Block.ne_footer hc hc hn), Memory.word_setWord, Nat.mod_eq_of_lt hv]

omit [Segment σ] in
lemma word_footer {m' : Memory} {v : Nat} (hm : m' = (m.setWord c v).setWord (Block.footer c n) v)
    (hv : v < Word.limit) : m'.word (Block.footer c n) = v := by
  rw [hm, Memory.word_setWord, Nat.mod_eq_of_lt hv]

omit [Segment σ] in
/-- The footer of the block before is not written. -/
lemma word_before_mark {m' : Memory} {v : Nat} (hc : c % blockUnit = 0) (hn : n % blockUnit = 0)
    (hpos : n ≠ 0) (hsize : n < Word.limit)
    (hm : m' = (m.setWord c v).setWord (Block.footer c n) v) :
    m'.word (Word.backward c wordSize) = m.word (Word.backward c wordSize) := by
  have hback : Word.backward c wordSize % blockUnit = blockUnit - wordSize := by
    unfold Word.backward
    simp only [blockUnit, wordSize, Word.limit] at *
    omega
  have hne : Word.backward c wordSize ≠ Block.footer c n := by
    unfold Block.footer Word.forward Word.backward
    simp only [blockUnit, wordSize, Word.limit] at *
    omega
  have hword : Word.backward c wordSize % wordSize = 0 := by
    simp only [blockUnit, wordSize] at *
    omega
  rw [hm, Memory.word_setWord_aligned _ _ (Block.footer_word_mod hc hn) hword, if_neg hne,
    Memory.word_setWord_aligned _ _ (Block.word_mod hc) hword, if_neg]
  intro heq
  rw [heq, hc] at hback
  exact absurd hback (by decide)

/-- A block is not merged with an allocated one before it. -/
lemma mergeBefore_skips (hbefore : Tag.isFree ⟨g.memory.word (Word.backward c wordSize)⟩ = .ok false) :
    Action.Yields (mergeBefore c n) g (c, n) g := by
  unfold mergeBefore
  apply (Action.Yields.tagBefore g c).bind
  rw [hbefore]
  exact Action.Yields.step false ⟨rfl, rfl⟩ ⟨rfl, rfl⟩

namespace Above

lemma mark (ha : h.Above b g) (hc : c % blockUnit = 0) (hle : b ≤ c)
    (hm : Action.Yields (Block.mark c n status) g u g') : h.Above b g' := by
  obtain ⟨hn, m, rfl, hwords⟩ := mark_cases hm
  refine ⟨ha.segment, ha.start, ha.stop, ha.floor, ?_⟩
  rw [withMemory_memory, hwords]
  exact ha.headers.mark hc hle hn _

omit [Segment σ] in
lemma pullCursor (ha : h.Above b g) (hm : Action.Yields (pullCursor c n) g u g') : h.Above b g' := by
  unfold Arena.pullCursor at hm
  obtain ⟨_, _, ⟨_, rfl⟩, hplacement⟩ := hm.of_bind
  split at hplacement
  next cursor _ =>
    split at hplacement
    next =>
      obtain ⟨_, _, ⟨_, rfl⟩, hcursor⟩ := hplacement.of_bind
      split at hcursor
      next =>
        obtain ⟨_, rfl⟩ := hcursor
        exact ⟨ha.segment, ha.start, ha.stop, ha.floor, ha.headers⟩
      next =>
        obtain ⟨_, rfl⟩ := hcursor
        exact ha
    next =>
      obtain ⟨_, rfl⟩ := hplacement
      exact ha
  next =>
    obtain ⟨_, rfl⟩ := hplacement
    exact ha

lemma mergeAfter {total : Nat} (ha : h.Above b g) (hc : c % blockUnit = 0) (hle : b ≤ c)
    (hn : n % blockUnit = 0) (hm : Action.Yields (mergeAfter c n) g total g') :
    h.Above b g' ∧ total % blockUnit = 0 := by
  unfold Arena.mergeAfter at hm
  obtain ⟨next, g₁, hnext, hm₁⟩ := hm.of_bind
  obtain rfl : g₁ = g := hnext.2.symm
  obtain ⟨tag, _, ⟨_, rfl⟩, hcheck⟩ := hm₁.of_bind
  obtain ⟨free, _, ⟨_, rfl⟩, hmerge⟩ := hcheck.of_bind
  split at hmerge
  next =>
    obtain ⟨sum, _, ⟨hsum, rfl⟩, hnoted⟩ := hmerge.of_bind
    have hmark := (Action.Yields.note _ _ _).step_iff.mp hnoted
    obtain ⟨_, g₂, hmarked, hend⟩ := hmark.of_bind
    obtain ⟨rfl, rfl⟩ := hend.unique ⟨rfl, rfl⟩
    have hadd := Word.add_ok hsum
    have hunit := Tag.size_mod tag
    refine ⟨ha.mark hc hle hmarked, ?_⟩
    simp only [blockUnit] at *
    omega
  next =>
    obtain ⟨rfl, rfl⟩ := hmerge.unique ⟨rfl, rfl⟩
    exact ⟨ha, hn⟩

/-- A segment that takes bytes above `b` back leaves the headers below alone. -/
lemma shrunk {bytes : Nat} (hP : Segment.Exact P) (hs : h.Sound P blocks) (ha : h.Above b g)
    (hfits : b + bytes ≤ h.stop) :
    h.SameHeaders b (Segment.shrink bytes g.segment g.memory).memory := by
  have hvalid := hs.valid
  have hroom := hs.stop_le
  have hfirst := hs.toSited.firstWord_le
  intro a hunit hlow hhigh hlt
  rw [← ha.headers a hunit hlow hhigh hlt, ha.segment]
  refine Memory.word_congr fun x hx hx' => hP.shrink_kept bytes g.memory hvalid x (by omega) ?_
  by_cases hanswer : (Segment.shrink bytes h.segment g.memory).refusal = none
  · have hgranted := hP.shrink_granted bytes g.memory hvalid hanswer
    omega
  · have hrefused := hP.shrink_refused bytes g.memory hvalid hanswer
    omega

omit [Segment σ] in
lemma clipCursor_cases (hm : Action.Yields (clipCursor c) g u g') :
    g'.start = g.start ∧ g'.memory = g.memory := by
  unfold clipCursor at hm
  obtain ⟨_, _, ⟨_, rfl⟩, hplacement⟩ := hm.of_bind
  split at hplacement
  next =>
    split at hplacement
    next =>
      obtain ⟨_, rfl⟩ := hplacement
      exact ⟨rfl, rfl⟩
    next =>
      obtain ⟨_, rfl⟩ := hplacement
      exact ⟨rfl, rfl⟩
  next =>
    obtain ⟨_, rfl⟩ := hplacement
    exact ⟨rfl, rfl⟩

/-- An end sentinel that is not below `b`. -/
lemma sentinel_cases (hc : c % blockUnit = 0) (hle : b ≤ c) (hstart : g.start = h.start)
    (hheaders : h.SameHeaders b g.memory)
    (hm : Action.Yields (do
      Action.store c .sentinel
      clipCursor c) g u g') : g'.start = h.start ∧ h.SameHeaders b g'.memory := by
  obtain ⟨_, g₁, ⟨_, hstore⟩, hclip⟩ := hm.of_bind
  obtain ⟨hstart', hmemory⟩ := clipCursor_cases hclip
  have hwritten := hheaders.setWord (Block.word_mod hc) (Or.inr hle) Tag.sentinel.bits
  rw [hmemory, hstart', ← hstore]
  exact ⟨hstart, hwritten⟩

/-- The arena's end is moved down, but not below `b`. -/
lemma lowered {stop keep : Nat} (hstop : stop % blockUnit = 0) (hlow : b ≤ stop)
    (hc : c % blockUnit = 0) (hle : b ≤ c) (hstart : g.start = h.start)
    (hheaders : h.SameHeaders b g.memory)
    (hm : Action.Yields (do
      Action.modify fun h => { h with stop := stop }
      if keep > 0 then Block.mark c keep .free
      Action.store stop .sentinel
      clipCursor stop) g u g') : g'.start = h.start ∧ h.SameHeaders b g'.memory := by
  obtain ⟨_, g₁, ⟨_, hset⟩, hrest⟩ := hm.of_bind
  have hstart₁ : g₁.start = h.start := by
    rw [← hset]
    exact hstart
  have hheaders₁ : h.SameHeaders b g₁.memory := by
    rw [← hset]
    exact hheaders
  split at hrest
  next =>
    obtain ⟨_, g₂, hmark, hlast⟩ := hrest.of_bind
    obtain ⟨hpiece, m, rfl, hwords⟩ := mark_cases hmark
    refine sentinel_cases (g := g₁.withMemory m) hstop hlow hstart₁ ?_ hlast
    rw [withMemory_memory, hwords]
    exact hheaders₁.mark hc hle hpiece _
  next => exact sentinel_cases hstop hlow hstart₁ hheaders₁ hrest

/-- What is given back of a block that is not below `b` is not below it either. -/
lemma trim (hP : Segment.Exact P) (hs : h.Sound P blocks) (ha : h.Above b g)
    (hc : c % blockUnit = 0) (hle : b ≤ c) (hm : Action.Yields (trim c n) g u g') :
    g'.start = h.start ∧ h.SameHeaders b g'.memory := by
  have hsame : g.start = h.start ∧ h.SameHeaders b g.memory := ⟨ha.start, ha.headers⟩
  unfold Arena.trim at hm
  obtain ⟨_, _, hget, hm₁⟩ := hm.of_bind
  have hself : Action.Yields Action.get g g g := ⟨rfl, rfl⟩
  obtain ⟨rfl, rfl⟩ := hself.unique hget
  obtain ⟨reach, _, ⟨hreach, rfl⟩, hm₂⟩ := hm₁.of_bind
  split at hm₂
  next =>
    obtain ⟨_, rfl⟩ := hm₂
    exact hsame
  next hlast =>
    obtain ⟨bytes, _, ⟨hbytes, rfl⟩, hm₃⟩ := hm₂.of_bind
    split at hm₃
    next =>
      obtain ⟨_, rfl⟩ := hm₃
      exact hsame
    next =>
      have hsum := Word.add_ok hreach
      obtain ⟨hkeep, hrest⟩ := Word.sub_ok hbytes
      have hstop := ha.stop
      have hfits : b + bytes ≤ h.stop := by omega
      have hshrunk := ha.shrunk hP hs hfits
      obtain ⟨refusal, g₁, hshrink, hm₄⟩ := hm₃.of_bind
      have hanswered : Action.Yields (Action.shrink bytes) g _
          (g.answered (Segment.shrink bytes g.segment g.memory)) := ⟨rfl, rfl⟩
      obtain ⟨_, rfl⟩ := hshrink.unique hanswered
      cases refusal with
      | some error =>
        obtain ⟨_, rfl⟩ := hm₄
        exact ⟨ha.start, hshrunk⟩
      | none =>
        have hm₅ := (Action.Yields.note _ _ _).step_iff.mp hm₄
        have hfloor := hs.floor_mod
        have halign := ha.floor
        have hlimit := hs.toLaid.stop_lt_limit
        have hback : Word.backward g.stop bytes = g.stop - bytes :=
          Word.backward_of_le (by omega) (by omega)
        refine lowered (g := g.answered (Segment.shrink bytes g.segment g.memory)) ?_ ?_ hc hle
          ha.start hshrunk hm₅
        · simp only [blockUnit] at *
          omega
        · omega

/-- A block is released that has bytes and an allocated block right before it. -/
lemma release (hP : Segment.Exact P) (hs : h.Sound P blocks) (ha : h.Above b g)
    (hc : c % blockUnit = 0) (hle : b ≤ c)
    (hsize : Tag.size ⟨g.memory.word c⟩ ≠ 0)
    (hbefore : Tag.isFree ⟨g.memory.word (Word.backward c wordSize)⟩ = .ok false)
    (hm : Action.Yields (release c) g u g') : g'.start = h.start ∧ h.SameHeaders b g'.memory := by
  unfold Arena.release at hm
  obtain ⟨_, _, hn, hm₁⟩ := hm.of_bind
  obtain ⟨rfl, rfl⟩ := (Action.Yields.size g c).unique hn
  obtain ⟨_, g₂, hmark, hm₂⟩ := hm₁.of_bind
  have ha₂ := ha.mark hc hle hmark
  obtain ⟨hunit, m, rfl, hwords⟩ := mark_cases hmark
  have hlimit : Tag.size ⟨g.memory.word c⟩ < Word.limit :=
    Nat.lt_of_le_of_lt (Nat.div_mul_le_self _ _) (Memory.word_lt _ _)
  have hkept := word_before_mark hc hunit hsize hlimit hwords
  rw [← hkept] at hbefore
  obtain ⟨⟨_, _⟩, _, hmerge, hm₃⟩ := hm₂.of_bind
  obtain ⟨hpair, rfl⟩ := (mergeBefore_skips (g := g.withMemory m) hbefore).unique hmerge
  obtain ⟨rfl, rfl⟩ := Prod.mk.inj hpair
  obtain ⟨total, g₃, hafter, hm₄⟩ := hm₃.of_bind
  obtain ⟨ha₃, _⟩ := ha₂.mergeAfter hc hle hunit hafter
  obtain ⟨_, g₄, hpull, htrim⟩ := hm₄.of_bind
  exact (ha₃.pullCursor hpull).trim hP hs hc hle htrim

/-- A block is cut down at `b`. -/
theorem shrinkInPlace (hP : Segment.Exact P) (hs : h.Sound P blocks) (ha : h.Above b g)
    (hb : b % blockUnit = 0) (hlt : b + new < Word.limit) (hpos : 0 < new) (hcut : new < old)
    (hold : old < Word.limit) (hm : Action.Yields (shrinkInPlace b old new) g u g') :
    g'.start = h.start ∧ h.SameHeaders b g'.memory := by
  unfold Arena.shrinkInPlace at hm
  have hm₁ := (Action.Yields.note _ _ _).step_iff.mp hm
  obtain ⟨_, g₁, hhead, hm₂⟩ := hm₁.of_bind
  have ha₁ := ha.mark hb (Nat.le_refl b) hhead
  obtain ⟨hnew, m₁, rfl, hwords₁⟩ := mark_cases hhead
  simp only [Word.forward_of_lt hlt] at hm₂
  obtain ⟨_, g₂, hrest, hrelease⟩ := hm₂.of_bind
  have hc : (b + new) % blockUnit = 0 := by
    simp only [blockUnit] at *
    omega
  have ha₂ := ha₁.mark hc (Nat.le_add_right b new) hrest
  obtain ⟨hsize, m₂, rfl, hwords₂⟩ := mark_cases hrest
  have hrestSize : Piece.Whole ⟨old - new, .allocated⟩ := ⟨by simp only; omega, hsize⟩
  have hnewSize : Piece.Whole ⟨new, .allocated⟩ := ⟨hpos, hnew⟩
  have hhead := word_marked hc hsize (by simp only [blockUnit, Status.bits, Word.limit] at *; omega)
    hwords₂
  have hbefore := word_before_mark hc hsize (by omega) (by omega) hwords₂
  have hfoot := word_footer hwords₁ (by simp only [blockUnit, Status.bits, Word.limit] at *; omega)
  rw [Block.footer, Word.forward_of_lt hlt] at hfoot
  refine ha₂.release hP hs hc (Nat.le_add_right b new) ?_ ?_ hrelease
  · rw [withMemory_memory, hhead]
    exact fun hzero => hrestSize.1.ne' (hrestSize.tag_size.symm.trans hzero)
  · rw [withMemory_memory, hbefore, withMemory_memory, hfoot]
    exact hnewSize.tag_isFree

/-- A block is made to take in what comes after it at `b`, and cut down. -/
theorem growInPlace (ha : h.Above b g) (hb : b % blockUnit = 0) (hlt : b + new < Word.limit)
    {available : Nat} (hm : Action.Yields (growInPlace b available new) g u g') :
    g'.start = h.start ∧ h.SameHeaders b g'.memory := by
  unfold Arena.growInPlace at hm
  have hm₁ := (Action.Yields.note _ _ _).step_iff.mp hm
  obtain ⟨_, g₁, hhead, hm₂⟩ := hm₁.of_bind
  have ha₁ := ha.mark hb (Nat.le_refl b) hhead
  obtain ⟨_, g₂, hpull, hcarve⟩ := hm₂.of_bind
  have ha₂ := ha₁.pullCursor hpull
  rcases carve_cases hcarve with ⟨_, g₄, hnew, hrest⟩ | ⟨_, hwhole⟩
  · have ha₄ := ha₂.mark hb (Nat.le_refl b) hnew
    obtain ⟨hunit, _⟩ := mark_cases hnew
    rw [Word.forward_of_lt hlt] at hrest
    have ha' := ha₄.mark (by simp only [blockUnit] at *; omega) (Nat.le_add_right b new) hrest
    exact ⟨ha'.start, ha'.headers⟩
  · have ha' := ha₂.mark hb (Nat.le_refl b) hwhole
    exact ⟨ha'.start, ha'.headers⟩

end Above

omit [Segment σ] in
lemma Above.refl (b : Nat) (h : Arena σ) : h.Above b h :=
  ⟨rfl, rfl, rfl, rfl, fun _ _ _ _ _ => rfl⟩

end Arena
end BlockHeap
