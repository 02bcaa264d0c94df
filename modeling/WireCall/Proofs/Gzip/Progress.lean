import WireCall.Gzip.Inflate
import WireCall.Proofs.Gzip.Bits
import WireCall.Proofs.Recovery

namespace WireCall

/-!
# Progress of a reader

Whatever a reader of bits returns, it has not gone back: the bytes that are left are a suffix of
those that were there (`BitSource.Reaches`).  Every step of the machine takes a bit at least
(`Inflate.step_progress`), since the words of a code are never empty.  So a run that is allowed one
step for each bit, and one more, never uses up its steps.
-/

/-! ### Sources -/

namespace BitSource

/-- The number of unread bits. -/
def left (s : BitSource) : Nat := s.pending.length + 8 * s.rest.length

/-- Reading has gone on from `s` to `s'`, by `n` bits at least. -/
structure Reaches (n : Nat) (s s' : BitSource) : Prop where
  rest : s'.rest <:+ s.rest
  left : s'.left + n ≤ s.left

variable {n m : Nat} {s s' s'' : BitSource}

/-- A source reaches itself. -/
theorem Reaches.refl (s : BitSource) : Reaches 0 s s := ⟨List.suffix_refl s.rest, Nat.le_refl _⟩

/-- Bits taken on two stretches add up. -/
theorem Reaches.trans (h : Reaches n s s') (h' : Reaches m s' s'') : Reaches (n + m) s s'' := by
  refine ⟨h'.rest.trans h.rest, ?_⟩
  have hfirst := h.left
  have hsecond := h'.left
  omega

theorem Reaches.weaken (h : Reaches n s s') (hle : m ≤ n) : Reaches m s s' :=
  ⟨h.rest, Nat.le_trans (Nat.add_le_add_left hle _) h.left⟩

/-- What is returned comes with a source that is reached by `n` bits at least. -/
def Reads {β : Type} (n : Nat) (s : BitSource) (source : β → BitSource) (x : Except Halt β) :
    Prop := ∀ b, x = .ok b → Reaches n s (source b)

section Reads

variable {β γ : Type} {source : β → BitSource} {source' : γ → BitSource}

/-- A reader that fails has not gone back. -/
theorem Reads.error (halt : Halt) : Reads n s source (.error halt) := nofun

/-- A reader that returns has come as far as its source. -/
theorem Reads.ok {b : β} (h : Reaches n s (source b)) : Reads n s source (.ok b) := by
  intro b' heq
  rwa [← Except.ok.inj heq]

/-- Readers in sequence. -/
theorem Reads.bind {x : Except Halt β} {f : β → Except Halt γ} (hx : Reads n s source x)
    (hf : ∀ b, Reads m (source b) source' (f b)) : Reads (n + m) s source' (x >>= f) := by
  intro c hc
  obtain ⟨b, hb, hc⟩ := bind_eq_ok_iff.mp hc
  exact (hx b hb).trans (hf b c hc)

theorem Reads.weaken {x : Except Halt β} (hx : Reads n s source x) (hle : m ≤ n) :
    Reads m s source x := fun b hb => (hx b hb).weaken hle

/-- Readers in sequence, however much the first one takes. -/
theorem Reads.seq {x : Except Halt β} {f : β → Except Halt γ} (hx : Reads n s source x)
    (hf : ∀ b, Reads 0 (source b) source' (f b)) : Reads 0 s source' (x >>= f) :=
  (hx.bind hf).weaken (Nat.zero_le _)

end Reads

/-- The next bit is taken off the source. -/
theorem reaches_next? {b : Bool} (h : s.next? = some (b, s')) : Reaches 1 s s' := by
  obtain ⟨_ | ⟨c, pending⟩, _ | ⟨byte, rest⟩, taken⟩ := s
  · cases h
  · cases h
    refine ⟨List.suffix_cons byte rest, ?_⟩
    simp only [left, List.length_cons, List.length_nil]
    omega
  · cases h
    exact ⟨List.suffix_refl _, by simp only [left, List.length_cons]; omega⟩
  · cases h
    exact ⟨List.suffix_refl _, by simp only [left, List.length_cons]; omega⟩

/-- A number takes its width off the source. -/
theorem reads_number (width : Nat) (s : BitSource) : Reads width s Prod.snd (s.number width) := by
  -- By induction on the width: each bit is one step on.
  induction width generalizing s with
  | zero => exact .ok (.refl s)
  | succ width ih =>
    rw [number]
    cases hnext : s.next? with
    | none => exact .error _
    | some r =>
      obtain ⟨b, s'⟩ := r
      dsimp only
      have hrest : Reads (width + 0) s' Prod.snd
          (s'.number width >>= fun r => pure (b.toNat + 2 * r.1, r.2)) := by
        refine Reads.bind (ih s') fun r => ?_
        exact .ok (.refl r.2)
      intro c hc
      rw [Nat.add_comm]
      exact (reaches_next? hnext).trans (hrest c hc)

/-- Going on to the next byte never goes back. -/
theorem reaches_align (s : BitSource) : Reaches 0 s s.align := by
  refine ⟨List.suffix_refl _, ?_⟩
  simp only [left, align, List.length_nil]
  omega

theorem reads_byte (s : BitSource) : Reads 1 s Prod.snd s.byte := by
  obtain ⟨pending, _ | ⟨b, rest⟩, taken⟩ := s
  · exact .error _
  · refine .ok ⟨List.suffix_cons b rest, ?_⟩
    simp only [left, List.length_cons, List.length_nil]
    omega

end BitSource

/-! ### Trees -/

namespace CodeTree

open BitSource

/-- The tree is neither empty nor a leaf, so that a symbol takes a bit. -/
inductive IsNode : CodeTree → Prop
  | mk (zero one : CodeTree) : IsNode (node zero one)

/-- A symbol is read without going back. -/
theorem reads_readSymbol (t : CodeTree) (s : BitSource) : Reads 0 s Prod.snd (t.readSymbol s) := by
  -- By induction on the tree: each branch takes a bit.
  induction t generalizing s with
  | empty => exact .error _
  | leaf symbol => exact .ok (.refl s)
  | node zero one ihzero ihone =>
    rw [readSymbol]
    cases hnext : s.next? with
    | none => exact .error _
    | some r =>
      obtain ⟨b, s'⟩ := r
      intro c hc
      have hreaches := (reaches_next? hnext).weaken (Nat.zero_le 1)
      cases b with
      | false => exact hreaches.trans (ihzero s' c hc)
      | true => exact hreaches.trans (ihone s' c hc)

/-- A symbol that has a word takes at least a bit. -/
theorem IsNode.reads_readSymbol {t : CodeTree} (h : t.IsNode) (s : BitSource) :
    Reads 1 s Prod.snd (t.readSymbol s) := by
  cases h with
  | mk zero one =>
    rw [readSymbol]
    cases hnext : s.next? with
    | none => exact .error _
    | some r =>
      obtain ⟨b, s'⟩ := r
      intro c hc
      cases b with
      | false => exact (reaches_next? hnext).trans (zero.reads_readSymbol s' c hc)
      | true => exact (reaches_next? hnext).trans (one.reads_readSymbol s' c hc)

/-- A word that is not empty ends below the root. -/
theorem isNode_insert {symbol : Nat} {path : List Bool} (hpath : path ≠ []) (t : CodeTree) :
    (t.insert symbol path).IsNode := by
  cases path with
  | nil => exact absurd rfl hpath
  | cons b path => cases b <;> cases t <;> exact .mk _ _

end CodeTree

namespace PrefixCode

/-- No symbol is assigned an empty word. -/
theorem ne_nil_of_mem_assign {symbol : Nat} {lengths : List Nat} {next : Array Nat}
    {word : Nat × List Bool} (h : word ∈ assign symbol lengths next) : word.2 ≠ [] := by
  induction lengths generalizing symbol next with
  | nil => cases h
  | cons length lengths ih =>
    rw [assign] at h
    split at h
    · exact ih h
    · rename_i hlength
      rcases List.mem_cons.mp h with rfl | h
      · -- Every word has the length assigned to its symbol, which is not zero.
        intro hnil
        have hzero := congrArg List.length hnil
        rw [bitsOfCode, List.length_reverse, length_bitsOfNat] at hzero
        exact hlength hzero
      · exact ih h

/-- No stray word is empty. -/
theorem ne_nil_of_mem_strays {lengths : List Nat} {word : Nat × List Bool}
    (h : word ∈ strays lengths) : word.2 ≠ [] := by
  rw [strays] at h
  split at h
  · obtain ⟨zeros, -, rfl⟩ := List.mem_map.mp h
    simp
  · cases h

/-- A tree of words that are not empty branches at its root. -/
theorem isNode_tree (lengths : List Nat) : (tree lengths).IsNode := by
  -- Inserting a word that is not empty keeps the branch at the root.
  have hinsert (words : List (Nat × List Bool)) (hwords : ∀ word ∈ words, word.2 ≠ [])
      (t : CodeTree) (ht : t.IsNode) :
      (words.foldl (fun t word => t.insert word.1 word.2) t).IsNode := by
    induction words generalizing t with
    | nil => exact ht
    | cons word words ih =>
      rw [List.foldl_cons]
      exact ih (fun w hw => hwords w (by simp [hw])) _
        (CodeTree.isNode_insert (hwords word (by simp)) t)
  refine hinsert _ (fun word hword => ?_) _ (.mk .empty .empty)
  rcases List.mem_append.mp hword with hword | hword
  · exact ne_nil_of_mem_assign hword
  · exact ne_nil_of_mem_strays hword

end PrefixCode

/-! ### The machine -/

namespace Inflate

open Gzip BitSource

theorem reads_readOrdered (symbols : List Nat) (lengths : Array Nat) (s : BitSource) :
    Reads 0 s Prod.snd (readOrdered symbols lengths s) := by
  induction symbols generalizing lengths s with
  | nil => exact .ok (.refl s)
  | cons symbol symbols ih =>
    refine Reads.seq (reads_number 3 s) fun r => ?_
    exact ih _ r.2

theorem reads_readLengths (t : CodeTree) (total fuel : Nat) (got : List Nat) (s : BitSource) :
    Reads 0 s Prod.snd (readLengths t total fuel got s) := by
  induction fuel generalizing got s with
  | zero => exact .error _
  | succ fuel ih =>
    rw [readLengths]
    split
    · split
      · exact .ok (.refl s)
      · exact .error _
    · refine Reads.seq (t.reads_readSymbol s) fun r => ?_
      dsimp only
      split
      · exact ih _ _
      · split
        · exact .error _
        · refine Reads.seq (reads_number _ r.2) fun r' => ?_
          exact ih _ r'.2

theorem reads_readTrees (s : BitSource) : Reads 0 s (fun r => r.2.2) (readTrees s) := by
  refine Reads.seq (reads_number 5 s) fun literals => ?_
  refine Reads.seq (reads_number 5 literals.2) fun distances => ?_
  refine Reads.seq (reads_number 4 distances.2) fun ordered => ?_
  dsimp only
  split
  · exact .error _
  · refine Reads.seq (reads_readOrdered _ _ ordered.2) fun lengths => ?_
    split
    · exact .error _
    · refine Reads.seq (reads_readLengths _ _ _ _ lengths.2) fun all => ?_
      split
      · exact .ok (.refl all.2)
      · exact .error _

/-- A tree that was read branches at its root. -/
theorem isNode_of_readTrees {s : BitSource} {r : CodeTree × CodeTree × BitSource}
    (h : readTrees s = .ok r) : r.1.IsNode := by
  obtain ⟨literals, -, h⟩ := bind_eq_ok_iff.mp h
  obtain ⟨distances, -, h⟩ := bind_eq_ok_iff.mp h
  obtain ⟨ordered, -, h⟩ := bind_eq_ok_iff.mp h
  dsimp only at h
  split at h
  · cases h
  · obtain ⟨lengths, -, h⟩ := bind_eq_ok_iff.mp h
    split at h
    · cases h
    · obtain ⟨all, -, h⟩ := bind_eq_ok_iff.mp h
      split at h
      · cases h
        exact PrefixCode.isNode_tree _
      · cases h

theorem reads_readStoredHead (s : BitSource) : Reads 0 s Prod.snd (readStoredHead s) := by
  have hlengths : Reads 0 s.align Prod.snd (readStoredHead s) := by
    refine Reads.seq (reads_number 16 s.align) fun r => ?_
    refine Reads.seq (reads_number 16 r.2) fun r' => ?_
    dsimp only
    split
    · exact .ok (.refl r'.2)
    · exact .error _
  exact fun b hb => (reaches_align s).trans (hlengths b hb)

theorem reads_readRange (ranges : Array (Nat × Nat)) (index : Nat) (s : BitSource) :
    Reads 0 s Prod.snd (readRange ranges index s) := by
  rw [readRange]
  split
  · exact .error _
  · refine Reads.seq (reads_number _ s) fun r => ?_
    exact .ok (.refl r.2)

theorem reads_readMatch (distances : CodeTree) (symbol : Nat) (s : BitSource) :
    Reads 0 s (fun r => r.2.2) (readMatch distances symbol s) := by
  refine Reads.seq (reads_readRange lengthRanges (symbol - 257) s) fun r => ?_
  refine Reads.seq (distances.reads_readSymbol r.2) fun r' => ?_
  refine Reads.seq (reads_readRange distanceRanges r'.1 r'.2) fun r'' => ?_
  exact .ok (.refl r''.2)

/-- In a coded block every symbol takes a bit. -/
def State.Sound (s : State) : Prop :=
  match s.phase with
  | .coded literals _ _ => literals.IsNode
  | _ => True

/-- A coded block is sound under a tree that branches. -/
theorem sound_coded {literals : CodeTree} (h : literals.IsNode) (source : BitSource)
    (out : Array UInt8) (distances : CodeTree) (last : Bool) :
    State.Sound ⟨source, out, .coded literals distances last⟩ := h

theorem isNode_fixedTree : fixedTree.IsNode := by
  unfold fixedTree
  exact PrefixCode.isNode_tree fixedLengths

/-- The step has taken a bit at least, and has not gone back. -/
def Step.Progress (source : BitSource) : Step → Prop
  | .next s => Reaches 1 source s.source ∧ s.Sound
  | .done source' _ => Reaches 1 source source'
  | .broken _ => True

/-- The end of a block keeps the progress made. -/
theorem progress_finishBlock {source source' : BitSource} (h : Reaches 1 source source')
    (out : Array UInt8) (last : Bool) : (finishBlock source' out last).Progress source := by
  unfold finishBlock
  split
  · exact h
  · exact ⟨h, trivial⟩

/-- The head of a block takes a bit at least. -/
theorem progress_stepHead (source : BitSource) (out : Array UInt8) :
    (stepHead source out).Progress source := by
  unfold stepHead
  cases hnumber : source.number 3 with
  | error halt => trivial
  | ok r =>
    obtain ⟨head, source'⟩ := r
    have hhead : Reaches 1 source source' :=
      (reads_number 3 source _ hnumber).weaken (by decide)
    dsimp only
    -- Stored blocks, fixed trees and trees of their own each read on from the head.
    split
    · split
      · trivial
      · rename_i hstored
        exact progress_finishBlock (hhead.trans (reads_readStoredHead source' _ hstored)) out _
      · rename_i hstored
        exact ⟨hhead.trans (reads_readStoredHead source' _ hstored), trivial⟩
    · exact ⟨hhead, sound_coded isNode_fixedTree _ _ _ _⟩
    · split
      · trivial
      · rename_i htrees
        exact ⟨hhead.trans (reads_readTrees source' _ htrees),
          sound_coded (isNode_of_readTrees htrees) _ _ _ _⟩
    · trivial

theorem progress_stepStored (source : BitSource) (out : Array UInt8) (left : Nat) (last : Bool) :
    (stepStored source out left last).Progress source := by
  unfold stepStored
  cases hbyte : source.byte with
  | error halt => trivial
  | ok r =>
    have hreaches := reads_byte source _ hbyte
    dsimp only
    split
    · exact progress_finishBlock hreaches _ last
    · exact ⟨hreaches, trivial⟩

theorem progress_stepCoded (source : BitSource) (out : Array UInt8) {literals : CodeTree}
    (hnode : literals.IsNode) (distances : CodeTree) (last : Bool) :
    (stepCoded source out literals distances last).Progress source := by
  unfold stepCoded
  cases hsymbol : literals.readSymbol source with
  | error halt => trivial
  | ok r =>
    have hreaches := hnode.reads_readSymbol source _ hsymbol
    dsimp only
    split
    · exact ⟨hreaches, sound_coded hnode _ _ _ _⟩
    · split
      · exact progress_finishBlock hreaches out last
      · split
        · trivial
        · rename_i hmatch
          exact ⟨hreaches.trans (reads_readMatch distances r.1 r.2 _ hmatch),
            sound_coded hnode _ _ _ _⟩

/-- Each step takes a bit at least. -/
theorem step_progress {s : State} (h : s.Sound) : (step s).Progress s.source := by
  obtain ⟨source, out, phase⟩ := s
  cases phase with
  | head => exact progress_stepHead source out
  | stored left last => exact progress_stepStored source out left last
  | coded literals distances last => exact progress_stepCoded source out h distances last

end Inflate
end WireCall
