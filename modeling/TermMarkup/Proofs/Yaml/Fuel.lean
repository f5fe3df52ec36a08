/-
Fuel for reading a document. Every call of the readers takes a token or is the only one of its kind
before the next token, so two for each token that may still come are enough, and a little more at
the start. A document is read with twice the weight of its text, so it never runs out of fuel.
-/
import TermMarkup.Yaml.Event.Reader
import TermMarkup.Proofs.Yaml.Weight

namespace TermMarkup.Yaml

variable {α β : Type}

/-! ## Readings that do not run out of fuel -/

/-- The reading did not run out of fuel, and if it succeeded, `Q` holds of its value and of the lexer
it left. -/
def Ends (Q : α → Lexer → Prop) : Except Stop α × Progress → Prop
  | (.ok v, p) => Q v p.lexer
  | (.error stop, _) => stop ≠ .outOfFuel

/-- Wherever `P` holds of the lexer, the reading ends with `Q`. -/
def Reads (P : Lexer → Prop) (reading : EventReader α) (Q : α → Lexer → Prop) : Prop :=
  ∀ p : Progress, P p.lexer → Ends Q (reading.run.run p)

section

variable {P P' : Lexer → Prop} {Q Q' : α → Lexer → Prop} {R : β → Lexer → Prop}
variable {a : EventReader α} {f : α → EventReader β}

theorem Reads.bind (ha : Reads P a Q) (hf : ∀ v, Reads (Q v) (f v) R) : Reads P (a >>= f) R := by
  intro p hp
  have ha := ha p hp
  rw [ExceptT.run_bind, StateT.run_bind]
  cases hr : a.run.run p with
  | mk outcome p' =>
    rw [hr] at ha
    cases outcome with
    | ok v => exact hf v p' ha
    | error stop => exact ha

theorem Reads.pre (ha : Reads P a Q) (hP : ∀ l, P' l → P l) : Reads P' a Q :=
  fun p hp => ha p (hP _ hp)

theorem Reads.post (ha : Reads P a Q) (hQ : ∀ v l, Q v l → Q' v l) : Reads P a Q' := by
  intro p hp
  have ha := ha p hp
  cases hr : a.run.run p with
  | mk outcome p' =>
    rw [hr] at ha
    cases outcome with
    | ok v => exact hQ v _ ha
    | error stop => exact ha

theorem reads_pure {v : α} (h : ∀ l, P l → Q v l) : Reads P (pure v) Q :=
  fun p hp => h p.lexer hp

theorem reads_refuseText (fault : Malformed) : Reads P (refuseText fault : EventReader α) Q :=
  fun _ _ => nofun

theorem reads_refuseText_bind (fault : Malformed) : Reads P (refuseText fault >>= f) R :=
  (reads_refuseText (Q := fun _ _ => False) fault).bind fun _ _ h => h.elim

/-- Two ways to read, with the same to be read after them. -/
theorem Reads.ite_bind {p : Prop} [Decidable p] {b : EventReader α} (ha : Reads P a Q)
    (hb : Reads P b Q) (hf : ∀ v, Reads (Q v) (f v) R) :
    Reads P (if p then a >>= f else b >>= f) R := by
  split
  · exact ha.bind hf
  · exact hb.bind hf

/-- What does not touch the lexer does not run out of fuel. -/
theorem reads_modify {f : Progress → Progress} (h : ∀ p, (f p).lexer = p.lexer) :
    Reads P (modify f : EventReader Unit) fun _ => P := by
  intro p hp
  show P (f p).lexer
  rw [h p]
  exact hp

theorem reads_handles (f : List (String × List UInt8) → List (String × List UInt8)) :
    Reads P (modify fun p => { p with handles := f p.handles } : EventReader Unit) fun _ => P :=
  reads_modify fun _ => rfl

theorem reads_get : Reads P (get : EventReader Progress) fun _ => P :=
  fun _ hp => hp

theorem reads_lexing {action : Lexing α}
    (h : ∀ l v l', P l → action.run l = .ok (v, l') → Q v l') : Reads P (lexing action) Q := by
  have hget : Reads P (get : EventReader Progress) fun p l => p.lexer = l ∧ P l :=
    fun _ hp => ⟨rfl, hp⟩
  refine hget.bind fun p => ?_
  split
  · rename_i v l' hr
    rintro p' ⟨hp', hp⟩
    exact h p'.lexer v l' hp (hp' ▸ hr)
  · exact reads_refuseText _

theorem reads_emit (event : Event) (mark : Mark) : Reads P (emit event mark) fun _ => P :=
  reads_modify fun _ => rfl

theorem reads_nameNext (name : Option String) : Reads P (nameNext name) fun _ => P := by
  cases name with
  | none => exact reads_pure fun _ h => h
  | some name => exact reads_modify fun _ => rfl

theorem reads_emitAlias (name : String) (mark : Mark) :
    Reads P (emitAlias name mark) fun _ => P := by
  refine reads_get.bind fun p => ?_
  split
  · exact reads_emit _ _
  · exact reads_refuseText _

theorem reads_expandTag (start : Mark) (token : Token) (handle : String) (suffix : List UInt8) :
    Reads P (expandTag start token handle suffix) fun _ => P := by
  unfold expandTag
  split
  · exact reads_pure fun _ h => h
  · refine reads_get.bind fun p => ?_
    split
    · exact reads_pure fun _ h => h
    · exact reads_refuseText _

end

/-! ## Tokens -/

/-- At most `n` tokens are still to come. -/
def Light (n : Nat) (l : Lexer) : Prop := l.weight ≤ n

/-- Fewer than `n` tokens are still to come. -/
def Lighter (n : Nat) (l : Lexer) : Prop := l.weight < n

/-- At most `n` tokens are still to come, of which the given one is the first, unless it is the end
of the text. -/
def Shows (n : Nat) (token : Token) (l : Lexer) : Prop :=
  l.weight ≤ n ∧ (token.sign ≠ .streamEnd → ∃ queue, l.queue = token :: queue)

variable {n : Nat} {Q : α → Lexer → Prop}

theorem reads_peek : Reads (Light n) (lexing peekToken) (Shows n) :=
  reads_lexing fun _ _ _ hl h =>
    ⟨Nat.le_trans (peekToken_shows h).1 hl, (peekToken_shows h).2⟩

theorem reads_peekSign : Reads (Light n) peekSign fun _ => Light n :=
  reads_peek.bind fun _ => reads_pure fun _ h => h.1

theorem reads_skip {token : Token} (hne : token.sign ≠ .streamEnd) :
    Reads (Shows n token) (lexing skipToken) fun _ => Lighter n := by
  refine reads_lexing fun l _ l' hl h => ?_
  obtain ⟨queue, hqueue⟩ := hl.2 hne
  exact Nat.lt_of_lt_of_le (skipToken_lt hqueue hne h) hl.1

/-- To read from a lexer of any weight that has a property is to read from one of each such
weight. -/
theorem reads_weight {C : Nat → Prop} {a : EventReader α}
    (h : ∀ m, C m → Reads (Light m) a Q) : Reads (fun l => C l.weight) a Q :=
  fun p hp => h p.lexer.weight hp p (Nat.le_refl _)

theorem reads_lighter {a : EventReader α} (h : ∀ m, m < n → Reads (Light m) a Q) :
    Reads (Lighter n) a Q :=
  reads_weight h

theorem Reads.lighter {a : EventReader α} {P : Lexer → Prop} {m : Nat} (hm : m < n)
    (ha : Reads P a fun _ => Light m) : Reads P a fun _ => Lighter n :=
  ha.post fun _ _ h => Nat.lt_of_le_of_lt h hm

def Properties.isPresent (r : Properties) : Bool :=
  r.anchor.isSome || r.tag.isSome

/-- Properties that are there were tokens. -/
theorem reads_readProperties :
    Reads (Light n) readProperties fun r l => l.weight ≤ n ∧ (r.isPresent = true → l.weight < n) := by
  have hskipped {a : EventReader Properties} (ha : ∀ m, Reads (Light m) a fun _ => Light m) :
      Reads (Lighter n) a fun r l => l.weight ≤ n ∧ (r.isPresent = true → l.weight < n) :=
    reads_lighter fun m hm => (ha m).post fun _ _ h =>
      ⟨Nat.le_of_lt (Nat.lt_of_le_of_lt h hm), fun _ => Nat.lt_of_le_of_lt h hm⟩
  unfold readProperties
  refine reads_peek.bind fun first => ?_
  split
  · rename_i name hs
    refine (reads_skip (by rw [hs]; nofun)).bind fun _ => hskipped fun m => ?_
    refine reads_peek.bind fun second => ?_
    split
    · rename_i hs
      refine (reads_skip (by rw [hs]; nofun)).bind fun _ => reads_lighter fun k hk => ?_
      refine reads_peekSign.bind fun _ => (reads_expandTag _ _ _ _).bind fun _ => ?_
      exact reads_pure fun l h => Nat.le_of_lt (Nat.lt_of_le_of_lt h hk)
    · exact reads_pure fun l h => h.1
  · rename_i hs
    refine (reads_skip (by rw [hs]; nofun)).bind fun _ => hskipped fun m => ?_
    refine reads_peek.bind fun second => ?_
    split
    · rename_i hs
      refine (reads_skip (by rw [hs]; nofun)).bind fun _ => reads_lighter fun k hk => ?_
      refine reads_peekSign.bind fun _ => (reads_expandTag _ _ _ _).bind fun _ => ?_
      exact reads_pure fun l h => Nat.le_of_lt (Nat.lt_of_le_of_lt h hk)
    · refine (reads_expandTag _ _ _ _).bind fun _ => ?_
      exact reads_pure fun l h => h.1
  · exact reads_pure fun l h => ⟨h.1, nofun⟩

/-! ## Nodes -/

/-- What the readers of nodes need of fuel, and what they leave to come. -/
structure Fed (fuel : Nat) : Prop where
  node : ∀ {n block flush}, 2 * n + 2 ≤ fuel → Reads (Light n) (readNode fuel block flush)
    fun _ l => l.weight ≤ n ∧ (flush = false → l.weight < n)
  blockSequence : ∀ {n start}, 2 * n + 1 ≤ fuel →
    Reads (Light n) (readBlockSequence fuel start) fun _ => Light n
  flushSequence : ∀ {n}, 2 * n + 1 ≤ fuel →
    Reads (Light n) (readFlushSequence fuel) fun _ => Light n
  blockMapping : ∀ {n start}, 2 * n + 1 ≤ fuel →
    Reads (Light n) (readBlockMapping fuel start) fun _ => Light n
  flowSequence : ∀ {n first start}, 2 * n + 3 ≤ fuel →
    Reads (Light n) (readFlowSequence fuel first start) fun _ => Light n
  singlePair : ∀ {n}, 2 * n + 3 ≤ fuel → Reads (Light n) (readSinglePair fuel) fun _ => Light n
  flowMapping : ∀ {n first start}, 2 * n + 3 ≤ fuel →
    Reads (Light n) (readFlowMapping fuel first start) fun _ => Light n

section

variable {fuel : Nat} (ih : Fed fuel)

include ih

theorem reads_readNode {block flush : Bool} (h : 2 * n + 1 ≤ fuel) :
    Reads (Light n) (readNode (fuel + 1) block flush)
      fun _ l => l.weight ≤ n ∧ (flush = false → l.weight < n) := by
  have hdone {P : Lexer → Prop} {a : EventReader Unit} {p : Prop}
      (ha : Reads P a fun _ => Lighter n) : Reads P a fun _ l => l.weight ≤ n ∧ (p → l.weight < n) :=
    ha.post fun _ _ h => ⟨Nat.le_of_lt h, fun _ => h⟩
  unfold readNode
  refine reads_peek.bind fun token => ?_
  split
  · rename_i hs
    exact hdone ((reads_skip (by rw [hs]; nofun)).bind fun _ => reads_emitAlias _ _)
  · refine (reads_readProperties.pre fun _ h => h.1).bind fun r => ?_
    refine reads_weight (C := fun m => m ≤ n ∧ (r.isPresent = true → m < n)) fun m hm => ?_
    obtain ⟨anchor, tag, start⟩ := r
    refine reads_peek.bind fun token => ?_
    have hstart {P : Lexer → Prop} (event : Event) :
        Reads P (nameNext anchor >>= fun _ => emit event start) fun _ => P :=
      (reads_nameNext _).bind fun _ => reads_emit _ _
    -- a collection that a token opens is read with fewer tokens to come
    have hopened {event : Event} {a : EventReader Unit} (hne : token.sign ≠ .streamEnd)
        (ha : ∀ k, k < m → Reads (Light k) a fun _ => Light k) :
        Reads (Shows m token) ((nameNext anchor >>= fun _ => emit event start) >>= fun _ =>
          lexing skipToken >>= fun _ => a) fun _ => Lighter n := by
      refine (hstart event).bind fun _ => (reads_skip hne).bind fun _ => reads_lighter fun k hk => ?_
      exact (ha k hk).lighter (Nat.lt_of_lt_of_le hk hm.1)
    simp only
    split
    · refine (hstart _).bind fun _ => ?_
      refine ((ih.flushSequence (n := m) (by omega)).pre fun _ h => h.1).post fun _ l h => ?_
      exact ⟨Nat.le_trans h hm.1, nofun⟩
    · rename_i hs
      refine hdone ((reads_skip (by rw [hs]; nofun)).bind fun _ => ?_)
      refine (reads_nameNext _).bind fun _ => (reads_emit _ _).post fun _ _ h => ?_
      exact Nat.lt_of_lt_of_le h hm.1
    · rename_i hs
      exact hdone (hopened (by rw [hs]; nofun) fun k hk => ih.flowSequence (by omega))
    · rename_i hs
      exact hdone (hopened (by rw [hs]; nofun) fun k hk => ih.flowMapping (by omega))
    · rename_i hs
      exact hdone (hopened (by rw [hs]; nofun) fun k hk => ih.blockSequence (by omega))
    · rename_i hs
      exact hdone (hopened (by rw [hs]; nofun) fun k hk => ih.blockMapping (by omega))
    · split
      · exact reads_refuseText_bind _
      · rename_i hpresent
        have hlt : m < n := by
          refine hm.2 ?_
          revert hpresent
          unfold Properties.isPresent
          cases anchor <;> cases tag <;> simp
        exact hdone ((hstart _).post fun _ _ h => Nat.lt_of_le_of_lt h.1 hlt)

/-- With two to spare for each token to come, a node can be read. -/
theorem reads_node {block flush : Bool} (h : 2 * n + 2 ≤ fuel) :
    Reads (Light n) (readNode fuel block flush) fun _ => Light n :=
  (ih.node h).post fun _ _ h => h.1

theorem reads_readBlockSequence {start : Mark} (h : 2 * n ≤ fuel) :
    Reads (Light n) (readBlockSequence (fuel + 1) start) fun _ => Light n := by
  unfold readBlockSequence
  refine reads_peek.bind fun token => ?_
  split
  · rename_i hs
    refine (reads_skip (by rw [hs]; nofun)).bind fun _ => reads_lighter fun m hm => ?_
    refine reads_peekSign.bind fun _ => ?_
    refine .ite_bind (reads_emit _ _) (reads_node ih (by omega)) fun _ => ?_
    exact (ih.blockSequence (by omega)).post fun _ _ h => Nat.le_trans h (Nat.le_of_lt hm)
  · rename_i hs
    refine (reads_skip (by rw [hs]; nofun)).bind fun _ => ?_
    exact (reads_emit _ _).post fun _ _ h => Nat.le_of_lt h
  · exact reads_refuseText _

theorem reads_readFlushSequence (h : 2 * n ≤ fuel) :
    Reads (Light n) (readFlushSequence (fuel + 1)) fun _ => Light n := by
  unfold readFlushSequence
  refine reads_peek.bind fun token => ?_
  split
  · rename_i hs
    refine (reads_skip (by rw [hs]; nofun)).bind fun _ => reads_lighter fun m hm => ?_
    refine reads_peekSign.bind fun _ => ?_
    refine .ite_bind (reads_emit _ _) (reads_node ih (by omega)) fun _ => ?_
    exact (ih.flushSequence (by omega)).post fun _ _ h => Nat.le_trans h (Nat.le_of_lt hm)
  · exact (reads_emit _ _).post fun _ _ h => h.1

theorem reads_readBlockMapping {start : Mark} (h : 2 * n ≤ fuel) :
    Reads (Light n) (readBlockMapping (fuel + 1) start) fun _ => Light n := by
  unfold readBlockMapping
  refine reads_peek.bind fun token => ?_
  split
  · rename_i hs
    refine (reads_skip (by rw [hs]; nofun)).bind fun _ => reads_lighter fun m hm => ?_
    have hmore {k : Nat} (hk : k ≤ m) :
        Reads (Light k) (readBlockMapping fuel start) fun _ => Light n :=
      (ih.blockMapping (by omega)).post fun _ _ h => Nat.le_trans h (by omega)
    refine reads_peekSign.bind fun _ => ?_
    refine .ite_bind (reads_emit _ _) (reads_node ih (by omega)) fun _ => ?_
    refine reads_peek.bind fun token => ?_
    split
    · rename_i hs
      refine (reads_skip (by rw [hs]; nofun)).bind fun _ => reads_lighter fun k hk => ?_
      refine reads_peekSign.bind fun _ => ?_
      exact .ite_bind (reads_emit _ _) (reads_node ih (by omega)) fun _ => hmore (Nat.le_of_lt hk)
    · exact ((reads_emit _ _).post fun _ _ h => h.1).bind fun _ => hmore (Nat.le_refl _)
  · rename_i hs
    refine (reads_skip (by rw [hs]; nofun)).bind fun _ => ?_
    exact (reads_emit _ _).post fun _ _ h => Nat.le_of_lt h
  · exact reads_refuseText _

/-- A node that is no sequence in the column of its mapping takes a token. -/
theorem reads_node_taken {block : Bool} (h : 2 * n + 2 ≤ fuel) :
    Reads (Light n) (readNode fuel block false) fun _ => Lighter n :=
  (ih.node h).post fun _ _ h => h.2 rfl

theorem reads_readFlowSequence {first : Bool} {start : Mark} (h : 2 * n + 2 ≤ fuel) :
    Reads (Light n) (readFlowSequence (fuel + 1) first start) fun _ => Light n := by
  unfold readFlowSequence
  refine reads_peek.bind fun token => ?_
  extract_lets rest entry
  have hmore : Reads (Lighter n) (readFlowSequence fuel false start) fun _ => Light n :=
    reads_lighter fun m hm =>
      (ih.flowSequence (by omega)).post fun _ _ h => Nat.le_trans h (Nat.le_of_lt hm)
  have hrest : Reads (Light n) (rest ()) fun _ => Light n := by
    refine reads_peek.bind fun token => ?_
    split
    · rename_i hs
      refine (reads_skip (by rw [hs]; nofun)).bind fun _ => ?_
      exact (reads_emit _ _).post fun _ _ h => Nat.le_of_lt h
    · rename_i hs
      refine (reads_emit _ _).bind fun _ => (reads_skip (by rw [hs]; nofun)).bind fun _ => ?_
      refine .bind (reads_lighter fun m hm => ?_) fun _ => hmore
      exact (ih.singlePair (by omega)).lighter hm
    · exact ((reads_node_taken ih h).pre fun _ h => h.1).bind fun _ => hmore
  split
  · split
    · exact reads_refuseText_bind _
    · rename_i hs
      have hs : token.sign = .flowEntry := by simpa using hs
      exact (reads_skip (by rw [hs]; nofun)).bind fun _ => hrest.pre fun _ h => Nat.le_of_lt h
  · exact hrest.pre fun _ h => h.1

theorem reads_readSinglePair (h : 2 * n + 2 ≤ fuel) :
    Reads (Light n) (readSinglePair (fuel + 1)) fun _ => Light n := by
  unfold readSinglePair
  refine reads_peek.bind fun token => ?_
  extract_lets last rest
  have hlast : Reads (Light n) (last ()) fun _ => Light n :=
    reads_peek.bind fun _ => (reads_emit _ _).post fun _ _ h => h.1
  have hrest : Reads (Light n) (rest ()) fun _ => Light n := by
    refine reads_peek.bind fun token => ?_
    split
    · rename_i hs
      refine (reads_skip (by rw [eq_of_beq hs]; nofun)).bind fun _ => reads_lighter fun m hm => ?_
      refine reads_peek.bind fun token => ?_
      refine .ite_bind ((reads_emit _ _).post fun _ _ h => h.1)
        ((reads_node ih (by omega)).pre fun _ h => h.1) fun _ => ?_
      exact hlast.pre fun _ h => Nat.le_trans h (Nat.le_of_lt hm)
    · exact (reads_emit _ _).bind fun _ => hlast.pre fun _ h => h.1
  split
  · rename_i hs
    have hne : token.sign ≠ .streamEnd := by
      intro he
      rw [he] at hs
      cases hs
    refine (reads_skip hne).bind fun _ => (reads_emit _ _).bind fun _ => ?_
    exact hrest.pre fun _ h => Nat.le_of_lt h
  · exact ((reads_node ih h).pre fun _ h => h.1).bind fun _ => hrest

theorem reads_readFlowMapping {first : Bool} {start : Mark} (h : 2 * n + 2 ≤ fuel) :
    Reads (Light n) (readFlowMapping (fuel + 1) first start) fun _ => Light n := by
  unfold readFlowMapping
  refine reads_peek.bind fun token => ?_
  extract_lets more value rest entry
  have hmore : Reads (Lighter n) (more ()) fun _ => Light n :=
    reads_lighter fun m hm =>
      (ih.flowMapping (by omega)).post fun _ _ h => Nat.le_trans h (Nat.le_of_lt hm)
  have hvalue : Reads (Lighter n) (value ()) fun _ => Light n := by
    refine reads_lighter fun m hm => reads_peek.bind fun token => ?_
    split
    · rename_i hs
      refine (reads_skip (by rw [eq_of_beq hs]; nofun)).bind fun _ => reads_lighter fun k hk => ?_
      refine reads_peek.bind fun token => ?_
      refine .ite_bind ((reads_emit _ _).post fun _ _ h => h.1)
        ((reads_node ih (by omega)).pre fun _ h => h.1) fun _ => ?_
      exact hmore.pre fun _ h => Nat.lt_of_le_of_lt h (Nat.lt_trans hk hm)
    · exact (reads_emit _ _).bind fun _ => hmore.pre fun _ h => Nat.lt_of_le_of_lt h.1 hm
  have hrest : Reads (Light n) (rest ()) fun _ => Light n := by
    refine reads_peek.bind fun token => ?_
    split
    · rename_i hs
      refine (reads_skip (by rw [hs]; nofun)).bind fun _ => ?_
      exact (reads_emit _ _).post fun _ _ h => Nat.le_of_lt h
    · rename_i hs
      refine (reads_skip (by rw [hs]; nofun)).bind fun _ => reads_lighter fun m hm => ?_
      refine reads_peek.bind fun token => ?_
      refine .ite_bind ((reads_emit _ _).post fun _ _ h => h.1)
        ((reads_node ih (by omega)).pre fun _ h => h.1) fun _ => ?_
      exact hvalue.pre fun _ h => Nat.lt_of_le_of_lt h hm
    · refine ((reads_node_taken ih h).pre fun _ h => h.1).bind fun _ => ?_
      refine reads_lighter fun m hm => reads_peek.bind fun _ => ?_
      exact (reads_emit _ _).bind fun _ => hmore.pre fun _ h => Nat.lt_of_le_of_lt h.1 hm
  split
  · split
    · exact reads_refuseText_bind _
    · rename_i hs
      have hs : token.sign = .flowEntry := by simpa using hs
      exact (reads_skip (by rw [hs]; nofun)).bind fun _ => hrest.pre fun _ h => Nat.le_of_lt h
  · exact hrest.pre fun _ h => h.1

end

theorem fed (fuel : Nat) : Fed fuel := by
  induction fuel with
  | zero => exact ⟨nofun, nofun, nofun, nofun, nofun, nofun, nofun⟩
  | succ fuel ih =>
    exact ⟨fun h => reads_readNode ih (by omega), fun h => reads_readBlockSequence ih (by omega),
      fun h => reads_readFlushSequence ih (by omega), fun h => reads_readBlockMapping ih (by omega),
      fun h => reads_readFlowSequence ih (by omega), fun h => reads_readSinglePair ih (by omega),
      fun h => reads_readFlowMapping ih (by omega)⟩

/-! ## Documents -/

theorem reads_readDirectives {fuel : Nat} (h : n < fuel) (hasVersion : Bool) :
    Reads (Light n) (readDirectives fuel hasVersion) fun _ => Light n := by
  induction fuel generalizing n hasVersion with
  | zero => cases h
  | succ fuel ih =>
    unfold readDirectives
    have hmore (hasVersion : Bool) :
        Reads (Lighter n) (readDirectives fuel hasVersion) fun _ => Light n :=
      reads_lighter fun m hm =>
        (ih (by omega) hasVersion).post fun _ _ h => Nat.le_trans h (Nat.le_of_lt hm)
    refine reads_peek.bind fun token => ?_
    split
    · rename_i hs
      have hskip : Reads (Shows n token) (lexing skipToken) fun _ => Lighter n :=
        reads_skip (by rw [hs]; nofun)
      extract_lets rest accepted
      split
      · exact reads_refuseText_bind _
      · show Reads _ (if _ then _ else _) _
        split
        · exact reads_refuseText_bind _
        · exact hskip.bind fun _ => hmore true
    · rename_i hs
      refine reads_get.bind fun p => ?_
      extract_lets rest
      split
      · exact reads_refuseText_bind _
      · refine (reads_handles (· ++ [_])).bind fun _ => ?_
        exact (reads_skip (by rw [hs]; nofun)).bind fun _ => hmore hasVersion
    · exact (reads_handles (· ++ defaultHandles)).post fun _ _ h => h.1

theorem reads_readRest {fuel : Nat} (h : n < fuel) :
    Reads (Light n) (readRest fuel) fun _ => Light n := by
  induction fuel generalizing n with
  | zero => cases h
  | succ fuel ih =>
    unfold readRest
    refine reads_peek.bind fun token => ?_
    split
    · rename_i hs
      refine (reads_skip (by rw [hs]; nofun)).bind fun _ => reads_lighter fun m hm => ?_
      exact (ih (by omega)).post fun _ _ h => Nat.le_trans h (Nat.le_of_lt hm)
    · exact reads_pure fun _ h => h.1
    · exact reads_refuseText _

section

variable {fuel : Nat} (h : 2 * n + 2 ≤ fuel)

include h

theorem reads_readMarkedDocument :
    Reads (Light n) (readMarkedDocument fuel) fun _ => Light n := by
  unfold readMarkedDocument
  refine (reads_readDirectives (by omega) false).bind fun _ => reads_peek.bind fun token => ?_
  extract_lets rest content
  split
  · exact reads_refuseText_bind _
  · rename_i hs
    have hs : token.sign = .documentStart := by simpa using hs
    have hskip : Reads (Shows n token) (lexing skipToken) fun _ => Light n :=
      (reads_skip (by rw [hs]; nofun)).post fun _ _ h => Nat.le_of_lt h
    refine hskip.bind fun _ => reads_peek.bind fun token => ?_
    exact .ite_bind ((reads_emit _ _).post fun _ _ h => h.1)
      ((reads_node (fed fuel) h).pre fun _ h => h.1) fun _ => reads_readRest (by omega)

theorem reads_readDocument : Reads (Light n) (readDocument fuel) fun _ => Light n := by
  have hmarked : Reads (Light n) (readMarkedDocument fuel) fun _ => Light n :=
    reads_readMarkedDocument h
  unfold readDocument
  refine reads_peek.bind fun token => ?_
  split
  · exact (reads_emit _ _).post fun _ _ h => h.1
  · exact hmarked.pre fun _ h => h.1
  · exact hmarked.pre fun _ h => h.1
  · exact hmarked.pre fun _ h => h.1
  · refine (reads_handles fun _ => defaultHandles).bind fun _ => ?_
    refine ((reads_node (fed fuel) h).pre fun _ h => h.1).bind fun _ => ?_
    exact reads_readRest (by omega)

end

/-- There is always fuel enough: reading a text stops early only at a fault of the text. -/
theorem readDocument_ne_outOfFuel (text : String) :
    ((readDocument (fuelFor text)).run.run { lexer := .ofText text }).1 ≠ .error .outOfFuel := by
  have hfuel : 2 * (4 * text.length) + 2 ≤ fuelFor text := by
    unfold fuelFor
    omega
  have hends := reads_readDocument hfuel { lexer := .ofText text } (weight_ofText_le text)
  generalize (readDocument (fuelFor text)).run.run { lexer := .ofText text } = ended at hends
  obtain ⟨outcome, p⟩ := ended
  rintro rfl
  exact hends rfl

end TermMarkup.Yaml
