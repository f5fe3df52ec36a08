/-
How many tokens are still to come. Every character of a text gives at most four tokens: a colon that
makes the token before it a key gives the key, the start of a block, its end, and the value. So four
for each character left, one for each token that waits and one for each open block are never too few,
and reading a token never makes them more.
-/
import TermMarkup.Yaml.Token.Lexer
import TermMarkup.Proofs.Yaml.Left

namespace TermMarkup.Yaml

variable {α β : Type}

/-! ## The weight of a lexer -/

/-- The number of tokens but for the end of the text. -/
def waiting (queue : List Token) : Nat :=
  queue.countP (·.sign != .streamEnd)

theorem waiting_append (queue more : List Token) :
    waiting (queue ++ more) = waiting queue + waiting more :=
  List.countP_append

theorem waiting_cons_le (token : Token) (queue : List Token) :
    waiting (token :: queue) ≤ waiting queue + 1 := by
  unfold waiting
  rw [List.countP_cons]
  split <;> omega

theorem waiting_insert_le (queue : List Token) (place : Nat) (token : Token) :
    waiting (queue.take place ++ token :: queue.drop place) ≤ waiting queue + 1 := by
  have hsplit := congrArg waiting (List.take_append_drop place queue)
  have hcons := waiting_cons_le token (queue.drop place)
  rw [waiting_append] at hsplit ⊢
  omega

namespace Lexer

/-- The tokens that wait and the open blocks, each of which a token will close. -/
def pending (l : Lexer) : Nat :=
  waiting l.queue + l.indents.length

/-- A bound on the number of tokens still to come. -/
def weight (l : Lexer) : Nat :=
  4 * l.cursor.rest.length + l.pending

theorem pending_withCandidate (l : Lexer) (candidate : Option Candidate) :
    (l.withCandidate candidate).pending = l.pending := by
  unfold withCandidate
  split <;> rfl

theorem cursor_withCandidate (l : Lexer) (candidate : Option Candidate) :
    (l.withCandidate candidate).cursor = l.cursor := by
  unfold withCandidate
  split <;> rfl

theorem pending_push_le (l : Lexer) (token : Token) : (l.push token).pending ≤ l.pending + 1 := by
  have hone : waiting [token] ≤ 1 := waiting_cons_le token []
  show waiting (l.queue ++ [token]) + l.indents.length ≤ waiting l.queue + l.indents.length + 1
  rw [waiting_append]
  omega

theorem pending_openBlock_le (l : Lexer) (column : Nat) (number : Option Nat) (sign : Sign)
    (mark : Mark) : (l.openBlock column number sign mark).pending ≤ l.pending + 2 := by
  unfold openBlock
  split
  · exact Nat.le_add_right _ _
  · calc
      _ ≤ waiting l.queue + 1 + (l.indents.length + 1) :=
        Nat.add_le_add_right (waiting_insert_le l.queue _ _) _
      _ = l.pending + 2 := by
        unfold pending
        omega

theorem cursor_openBlock (l : Lexer) (column : Nat) (number : Option Nat) (sign : Sign)
    (mark : Mark) : (l.openBlock column number sign mark).cursor = l.cursor := by
  unfold openBlock
  split <;> rfl

/-- A block that is closed makes way for the token that closes it. -/
theorem pending_closeBlocks (l : Lexer) (column : Option Nat) :
    (l.closeBlocks column).pending = l.pending := by
  unfold closeBlocks
  split
  · rfl
  · generalize hp : (fun indent => column.all (· < indent)) = isClosed
    generalize l.cursor.mark = mark
    have hclosed (closed : List Nat) :
        waiting (closed.map fun _ => ⟨.blockEnd, mark, mark⟩) = closed.length := by
      unfold waiting
      rw [List.countP_map]
      exact List.countP_eq_length.2 fun _ _ => rfl
    have hsplit := congrArg List.length
      (List.takeWhile_append_dropWhile (p := isClosed) (l := l.indents))
    rw [List.length_append] at hsplit
    simp only [pending, waiting_append, hclosed]
    omega

theorem cursor_closeBlocks (l : Lexer) (column : Option Nat) :
    (l.closeBlocks column).cursor = l.cursor := by
  unfold closeBlocks
  split <;> rfl

end Lexer

/-! ## What lexing actions do to it -/

/-- The action stays where it is in the text and adds at most `n` to what is pending. -/
def Adds (n : Nat) (action : Lexing α) : Prop :=
  ∀ ⦃l v l'⦄, action.run l = .ok (v, l') → l'.cursor = l.cursor ∧ l'.pending ≤ l.pending + n

/-- At the given place of the text, the action takes one character or more and adds at most `n` to
what is pending. -/
def Takes (c : Cursor) (n : Nat) (action : Lexing α) : Prop :=
  ∀ ⦃l v l'⦄, l.cursor = c → action.run l = .ok (v, l') →
    l'.cursor.rest.length < c.rest.length ∧ l'.pending ≤ l.pending + n

/-- The action makes the weight no greater. -/
def Keeps (action : Lexing α) : Prop :=
  ∀ ⦃l v l'⦄, action.run l = .ok (v, l') → l'.weight ≤ l.weight

section

variable {a : Lexing α} {f : α → Lexing β} {m n : Nat} {c : Cursor}

theorem run_bind_eq_ok {l l' : Lexer} {v : β} (h : (a >>= f).run l = .ok (v, l')) :
    ∃ u k, a.run l = .ok (u, k) ∧ (f u).run k = .ok (v, l') := by
  obtain ⟨⟨u, k⟩, ha, hf⟩ := bind_eq_ok h
  exact ⟨u, k, ha, hf⟩

theorem Adds.bind (ha : Adds m a) (hf : ∀ u, Adds n (f u)) : Adds (m + n) (a >>= f) := by
  intro l v l' h
  obtain ⟨u, k, h, h'⟩ := run_bind_eq_ok h
  obtain ⟨hc, hp⟩ := ha h
  obtain ⟨hc', hp'⟩ := hf u h'
  exact ⟨hc'.trans hc, by omega⟩

theorem Adds.bind_takes (ha : Adds m a) (hf : ∀ u, Takes c n (f u)) : Takes c (m + n) (a >>= f) := by
  intro l v l' hl h
  obtain ⟨u, k, h, h'⟩ := run_bind_eq_ok h
  obtain ⟨hc, hp⟩ := ha h
  obtain ⟨hlt, hp'⟩ := hf u (hc.trans hl) h'
  exact ⟨hlt, by omega⟩

theorem Takes.bind (ha : Takes c m a) (hf : ∀ u, Adds n (f u)) : Takes c (m + n) (a >>= f) := by
  intro l v l' hl h
  obtain ⟨u, k, h, h'⟩ := run_bind_eq_ok h
  obtain ⟨hlt, hp⟩ := ha hl h
  obtain ⟨hc, hp'⟩ := hf u h'
  exact ⟨hc ▸ hlt, by omega⟩

theorem Keeps.bind (ha : Keeps a) (hf : ∀ u, Keeps (f u)) : Keeps (a >>= f) := by
  intro l v l' h
  obtain ⟨u, k, h, h'⟩ := run_bind_eq_ok h
  exact Nat.le_trans (hf u h') (ha h)

theorem Adds.mono (ha : Adds m a) (h : m ≤ n) : Adds n a := by
  intro l v l' hl
  obtain ⟨hc, hp⟩ := ha hl
  exact ⟨hc, by omega⟩

theorem Takes.mono (ha : Takes c m a) (h : m ≤ n) : Takes c n a := by
  intro l v l' hc hl
  obtain ⟨hlt, hp⟩ := ha hc hl
  exact ⟨hlt, by omega⟩

theorem Adds.keeps (ha : Adds 0 a) : Keeps a := by
  intro l v l' h
  obtain ⟨hc, hp⟩ := ha h
  unfold Lexer.weight
  rw [hc]
  omega

end

theorem adds_modify {f : Lexer → Lexer} {n : Nat} (hc : ∀ l, (f l).cursor = l.cursor)
    (hp : ∀ l, (f l).pending ≤ l.pending + n) : Adds n (modify f : Lexing Unit) := by
  intro l v l' h
  cases h
  exact ⟨hc l, hp l⟩

theorem adds_pure (v : α) : Adds 0 (pure v : Lexing α) := by
  intro l v l' h
  cases h
  exact ⟨rfl, Nat.le_refl _⟩

theorem adds_get : Adds 0 (get : Lexing Lexer) := by
  intro l v l' h
  cases h
  exact ⟨rfl, Nat.le_refl _⟩

theorem adds_allowKey (allowed : Bool) : Adds 0 (allowKey allowed) :=
  adds_modify (fun _ => rfl) fun _ => Nat.le_refl _

theorem adds_flows (f : List (Option Candidate) → List (Option Candidate)) :
    Adds 0 (modify fun l => { l with flows := f l.flows } : Lexing Unit) :=
  adds_modify (fun _ => rfl) fun _ => Nat.le_refl _

theorem adds_lookAhead (n : Nat) : Adds 0 (lookAhead n) := by
  intro l v l' h
  obtain ⟨k, _, hk, h⟩ := run_bind_eq_ok h
  cases hk
  split at h
  · cases h
  · cases h
    exact ⟨rfl, Nat.le_refl _⟩

theorem adds_dropCandidate : Adds 0 dropCandidate := by
  intro l v l' h
  obtain ⟨k, _, hk, h⟩ := run_bind_eq_ok h
  cases hk
  split at h
  · split at h
    · cases h
    · cases h
      exact ⟨l.cursor_withCandidate none, Nat.le_of_eq (l.pending_withCandidate none)⟩
  · cases h
    exact ⟨rfl, Nat.le_refl _⟩

theorem adds_dropStale : Adds 0 dropStale := by
  intro l v l' h
  obtain ⟨k, _, hk, h⟩ := run_bind_eq_ok h
  cases hk
  split at h
  · cases h
  · cases h
    exact ⟨rfl, Nat.le_refl _⟩

theorem adds_saveCandidate : Adds 0 saveCandidate := by
  intro l v l' h
  obtain ⟨k, _, hk, h⟩ := run_bind_eq_ok h
  cases hk
  split at h
  · refine adds_dropCandidate.bind (fun _ => adds_modify (n := 0) (fun k => ?_) fun k => ?_) h
    · exact k.cursor_withCandidate _
    · exact Nat.le_of_eq (k.pending_withCandidate _)
  · cases h
    exact ⟨rfl, Nat.le_refl _⟩

theorem adds_closeBlocks (column : Option Nat) :
    Adds 0 (modify (·.closeBlocks column) : Lexing Unit) :=
  adds_modify (fun l => l.cursor_closeBlocks column)
    fun l => Nat.le_of_eq (l.pending_closeBlocks column)

theorem adds_startEntry (sign : Sign) (problem : String) : Adds 2 (startEntry sign problem) := by
  intro l v l' h
  obtain ⟨k, _, hk, h⟩ := run_bind_eq_ok h
  cases hk
  split at h
  · split at h
    · cases h
    · cases h
      exact ⟨l.cursor_openBlock _ _ _ _, l.pending_openBlock_le _ _ _ _⟩
  · cases h
    exact ⟨rfl, Nat.le_add_right _ _⟩

/-! ## Taking a token -/

theorem run_lift_eq_ok {x : Except Malformed α} {l l' : Lexer} {v : α}
    (h : (liftM x : Lexing α).run l = .ok (v, l')) : x = .ok v ∧ l' = l := by
  obtain ⟨u, hu, h⟩ := bind_eq_ok h
  cases h
  exact ⟨hu, rfl⟩

/-- The end of the text weighs nothing. -/
theorem keeps_takeStreamEnd : Keeps takeStreamEnd := by
  have hmark : Keeps (modify fun l =>
      let mark := l.cursor.mark
      let mark := if mark.column == 0 then mark else ⟨mark.line + 1, 0, mark.index⟩
      { l with cursor := { l.cursor with mark } } : Lexing Unit) := by
    intro l v l' h
    cases h
    exact Nat.le_refl _
  have hend : Keeps (takeSign .streamEnd 0) := by
    intro l v l' h
    cases h
    show 4 * l.cursor.rest.length + (waiting (l.queue ++ [_]) + l.indents.length) ≤ l.weight
    rw [waiting_append]
    exact Nat.le_refl _
  exact hmark.bind fun _ => (adds_closeBlocks none).keeps.bind fun _ =>
    adds_dropCandidate.keeps.bind fun _ => (adds_allowKey false).keeps.bind fun _ => hend

section

variable {c : Cursor} {x : Char} (hx : c.head = some x)

theorem takes_takeRead {read : Cursor → Except Malformed (Sign × Cursor)}
    (hread : ∀ sign c', read c = .ok (sign, c') → c'.rest.length < c.rest.length) :
    Takes c 1 (takeRead read) := by
  intro l v l' hl h
  obtain ⟨k, _, hk, h⟩ := run_bind_eq_ok h
  cases hk
  obtain ⟨⟨sign, stop⟩, _, hk, h⟩ := run_bind_eq_ok h
  obtain ⟨hr, rfl⟩ := run_lift_eq_ok hk
  cases h
  exact ⟨hread sign stop (hl ▸ hr), Lexer.pending_push_le _ _⟩

theorem takes_takeScalar (style : ScalarStyle) {read : Cursor → Except Malformed ReadScalar}
    (hread : ∀ r, read c = .ok r → r.cursor.rest.length < c.rest.length) :
    Takes c 1 (takeScalar style read) := by
  intro l v l' hl h
  obtain ⟨k, _, hk, h⟩ := run_bind_eq_ok h
  cases hk
  obtain ⟨scalar, _, hk, h⟩ := run_bind_eq_ok h
  obtain ⟨hr, rfl⟩ := run_lift_eq_ok hk
  cases h
  exact ⟨hread scalar (hl ▸ hr), Lexer.pending_push_le _ _⟩

include hx

theorem takes_takeSign (sign : Sign) {length : Nat} (hlength : 0 < length) :
    Takes c 1 (takeSign sign length) := by
  intro l v l' hl h
  cases h
  cases hl
  exact ⟨Cursor.length_skip_lt hx hlength, l.pending_push_le _⟩

theorem takes_takeDirective : Takes c 1 takeDirective :=
  (adds_closeBlocks none).bind_takes fun _ => adds_dropCandidate.bind_takes fun _ =>
    (adds_allowKey false).bind_takes fun _ => takes_takeRead fun _ _ => readDirective_lt hx

theorem takes_takeDocumentMark (sign : Sign) : Takes c 1 (takeDocumentMark sign) :=
  (adds_closeBlocks none).bind_takes fun _ => adds_dropCandidate.bind_takes fun _ =>
    (adds_allowKey false).bind_takes fun _ => takes_takeSign hx sign (by decide)

theorem takes_takeFlowStart (sign : Sign) : Takes c 1 (takeFlowStart sign) :=
  adds_saveCandidate.bind_takes fun _ =>
    (adds_flows (none :: ·)).bind_takes fun _ =>
      (adds_allowKey true).bind_takes fun _ => takes_takeSign hx sign Nat.one_pos

theorem takes_takeFlowEnd (sign : Sign) : Takes c 1 (takeFlowEnd sign) :=
  adds_dropCandidate.bind_takes fun _ =>
    (adds_flows (List.drop 1)).bind_takes fun _ =>
      (adds_allowKey false).bind_takes fun _ => takes_takeSign hx sign Nat.one_pos

theorem takes_takeFlowEntry : Takes c 1 takeFlowEntry :=
  adds_dropCandidate.bind_takes fun _ => (adds_allowKey true).bind_takes fun _ =>
    takes_takeSign hx .flowEntry Nat.one_pos

theorem takes_takeBlockEntry : Takes c 3 takeBlockEntry :=
  (adds_startEntry _ _).bind_takes fun _ => adds_dropCandidate.bind_takes fun _ =>
    (adds_allowKey true).bind_takes fun _ => takes_takeSign hx .blockEntry Nat.one_pos

theorem takes_takeKey : Takes c 3 takeKey :=
  (adds_startEntry _ _).bind_takes fun _ => adds_dropCandidate.bind_takes fun _ =>
    adds_get.bind_takes fun _ => (adds_allowKey _).bind_takes fun _ =>
      takes_takeSign hx .key Nat.one_pos

/-- A value may bring a key and the start and the end of a block with it. -/
theorem takes_takeValue : Takes c 4 takeValue := by
  intro l v l' hl h
  obtain ⟨k, _, hk, h⟩ := run_bind_eq_ok h
  cases hk
  have hsign := takes_takeSign hx .value Nat.one_pos
  split at h
  · rename_i candidate _
    obtain ⟨_, k, hk, h⟩ := run_bind_eq_ok h
    have hkey := waiting_insert_le l.queue (candidate.number - l.taken)
      ⟨.key, candidate.mark, candidate.mark⟩
    have hk : k.cursor = l.cursor ∧ k.pending ≤ l.pending + 3 := by
      cases hk
      rw [Lexer.cursor_withCandidate, Lexer.cursor_openBlock, Lexer.pending_withCandidate]
      refine ⟨rfl, Nat.le_trans (Lexer.pending_openBlock_le _ _ _ _ _) ?_⟩
      exact Nat.add_le_add_right (Nat.le_trans (Nat.add_le_add_right hkey _)
        (Nat.le_of_eq (Nat.add_right_comm _ _ _))) 2
    obtain ⟨hlt, hp⟩ := (adds_allowKey false).bind_takes (fun _ => hsign) (hk.1.trans hl) h
    exact ⟨hlt, by omega⟩
  · exact ((adds_startEntry _ _).bind_takes fun _ => adds_get.bind_takes fun _ =>
      (adds_allowKey _).bind_takes fun _ => hsign).mono (by decide) hl h

theorem takes_takeAnchor (isAlias : Bool) : Takes c 1 (takeAnchor isAlias) :=
  adds_saveCandidate.bind_takes fun _ => (adds_allowKey false).bind_takes fun _ =>
    takes_takeRead fun _ _ => readAnchor_lt hx

theorem takes_takeTag : Takes c 1 takeTag :=
  adds_saveCandidate.bind_takes fun _ => (adds_allowKey false).bind_takes fun _ =>
    adds_get.bind_takes fun _ => takes_takeRead fun _ _ => readTag_lt hx

theorem takes_takeBlockScalar (style : ScalarStyle) : Takes c 1 (takeBlockScalar style) :=
  adds_dropCandidate.bind_takes fun _ => (adds_allowKey true).bind_takes fun _ =>
    adds_get.bind_takes fun _ => takes_takeScalar style fun _ => readBlock_lt hx

theorem takes_takeQuoted (style : ScalarStyle) : Takes c 1 (takeQuoted style) :=
  adds_saveCandidate.bind_takes fun _ => (adds_allowKey false).bind_takes fun _ =>
    takes_takeScalar style fun _ => readQuoted_lt hx

theorem takes_takePlain {flow : Bool} (hmark : c.atDocumentMark = false)
    (hflow : x ∉ [',', '[', ']', '\x7b', '\x7d'])
    (hcolon : x = ':' → isGapOrEnd (c.ahead 1) = false)
    (hplain : startsPlain flow x (c.ahead 1) = true) : Takes c 1 takePlain := by
  have hword : isGapOrEnd (some x) = false := by
    simp only [startsPlain, Bool.or_eq_true, Bool.and_eq_true, Bool.not_eq_true',
      beq_iff_eq] at hplain
    obtain (⟨h, -⟩ | ⟨rfl, -⟩) | ⟨⟨-, rfl | rfl⟩, -⟩ := hplain
    · exact h
    · rfl
    · rfl
    · rfl
  have hsharp : x ≠ '#' := by
    rintro rfl
    have hin : indicators.contains '#' = true := by decide
    rw [startsPlain, hin] at hplain
    simp at hplain
  exact adds_saveCandidate.bind_takes fun _ => (adds_allowKey false).bind_takes fun _ =>
    adds_get.bind_takes fun _ => (takes_takeScalar .plain fun _ =>
      readPlain_lt hx hword hmark hsharp hcolon hflow).bind fun _ => adds_lookAhead 2

end

theorem Takes.ite {c : Cursor} {n : Nat} {p : Prop} [Decidable p] {a b : Lexing α}
    (ha : p → Takes c n a) (hb : ¬ p → Takes c n b) : Takes c n (if p then a else b) := by
  split
  · exact ha ‹_›
  · exact hb ‹_›

/-- Any token takes a character or is the end of the text. -/
theorem keeps_takeToken : Keeps takeToken := by
  intro l v l' h
  obtain ⟨_, _, hk, h⟩ := run_bind_eq_ok h
  cases hk
  simp only at h
  cases hx : l.cursor.head with
  | none =>
    rw [hx] at h
    exact keeps_takeStreamEnd h
  | some x =>
    rw [hx] at h
    simp only at h
    have hkeep {a : Lexing Unit} (ha : Takes l.cursor 4 a) (h : a.run l = .ok (v, l')) :
        l'.weight ≤ l.weight := by
      obtain ⟨hlt, hp⟩ := ha rfl h
      unfold Lexer.weight
      omega
    have hone {a : Lexing Unit} (ha : Takes l.cursor 1 a) : Takes l.cursor 4 a :=
      ha.mono (by decide)
    have hthree {a : Lexing Unit} (ha : Takes l.cursor 3 a) : Takes l.cursor 4 a :=
      ha.mono (by decide)
    refine hkeep ?_ h
    refine .ite (fun _ => hone (takes_takeDirective hx)) fun _ => ?_
    refine .ite (fun _ => hone (takes_takeDocumentMark hx _)) fun hstart => ?_
    refine .ite (fun _ => hone (takes_takeDocumentMark hx _)) fun hend => ?_
    refine .ite (fun _ => hone (takes_takeFlowStart hx _)) fun hopen => ?_
    refine .ite (fun _ => hone (takes_takeFlowStart hx _)) fun hopen' => ?_
    refine .ite (fun _ => hone (takes_takeFlowEnd hx _)) fun hclose => ?_
    refine .ite (fun _ => hone (takes_takeFlowEnd hx _)) fun hclose' => ?_
    refine .ite (fun _ => hone (takes_takeFlowEntry hx)) fun hcomma => ?_
    refine .ite (fun _ => hthree (takes_takeBlockEntry hx)) fun _ => ?_
    refine .ite (fun _ => hthree (takes_takeKey hx)) fun _ => ?_
    refine .ite (fun _ => takes_takeValue hx) fun hvalue => ?_
    refine .ite (fun _ => hone (takes_takeAnchor hx _)) fun _ => ?_
    refine .ite (fun _ => hone (takes_takeAnchor hx _)) fun _ => ?_
    refine .ite (fun _ => hone (takes_takeTag hx)) fun _ => ?_
    refine .ite (fun _ => hone (takes_takeBlockScalar hx _)) fun _ => ?_
    refine .ite (fun _ => hone (takes_takeBlockScalar hx _)) fun _ => ?_
    refine .ite (fun _ => hone (takes_takeQuoted hx _)) fun _ => ?_
    refine .ite (fun _ => hone (takes_takeQuoted hx _)) fun _ => ?_
    refine .ite (fun hplain => hone ?_) fun _ => ?_
    · refine takes_takePlain hx ?_ ?_ ?_ hplain
      · rw [Cursor.atDocumentMark, Bool.eq_false_of_not_eq_true hstart,
          Bool.eq_false_of_not_eq_true hend]
        rfl
      · simp_all
      · simp_all
    · intro k u k' _ hk
      cases hk

/-! ## The next token -/

theorem keeps_skipGap (fuel : Nat) : Keeps (skipGap fuel) := by
  induction fuel with
  | zero => exact (adds_pure ()).keeps
  | succ fuel ih =>
    intro l v l' h
    unfold skipGap at h
    obtain ⟨_, _, hk, h⟩ := run_bind_eq_ok h
    cases hk
    simp only at h
    generalize hd : (Cursor.skipWhile _ _).skipComment = d at h
    have hgap : d.rest.length ≤ l.cursor.rest.length := by
      subst hd
      refine Nat.le_trans (Cursor.length_skipComment_le _)
        (Nat.le_trans (Cursor.length_skipWhile_le _ _) ?_)
      split
      · exact l.cursor.length_skip_le 1
      · exact Nat.le_refl _
    have hmoved {k : Lexer} (hq : k.pending = l.pending)
        (hc : k.cursor.rest.length ≤ d.rest.length) : k.weight ≤ l.weight := by
      unfold Lexer.weight
      omega
    split at h
    · obtain ⟨_, k, hk, h⟩ := run_bind_eq_ok h
      cases hk
      exact Nat.le_trans (ih h) (hmoved rfl d.length_skipBreak_le)
    · cases h
      exact hmoved rfl (Nat.le_refl _)

theorem keeps_readToken : Keeps readToken :=
  adds_get.keeps.bind fun _ => (keeps_skipGap _).bind fun _ => (adds_lookAhead 1).keeps.bind fun _ =>
    adds_dropStale.keeps.bind fun _ =>
      (adds_modify (n := 0) (fun l => l.cursor_closeBlocks _)
        fun l => Nat.le_of_eq (l.pending_closeBlocks _)).keeps.bind fun _ =>
        (adds_lookAhead 4).keeps.bind fun _ => keeps_takeToken.bind fun _ => (adds_lookAhead 1).keeps

theorem keeps_fillQueue (fuel : Nat) : Keeps (fillQueue fuel) := by
  induction fuel with
  | zero => exact (adds_pure ()).keeps
  | succ fuel ih =>
    have hmore : Keeps (readToken >>= fun _ => fillQueue fuel) := keeps_readToken.bind fun _ => ih
    unfold fillQueue
    refine adds_get.keeps.bind fun l => ?_
    split
    · refine adds_dropStale.keeps.bind fun _ => adds_get.keeps.bind fun k => ?_
      split
      · exact (adds_pure ()).keeps
      · exact hmore
    · exact hmore

/-- The token that is shown is the first that waits, unless the text ends. -/
theorem peekToken_shows {l l' : Lexer} {token : Token} (h : peekToken.run l = .ok (token, l')) :
    l'.weight ≤ l.weight ∧ (token.sign ≠ .streamEnd → ∃ queue, l'.queue = token :: queue) := by
  obtain ⟨_, _, hk, h⟩ := run_bind_eq_ok h
  cases hk
  obtain ⟨_, k, hfill, h⟩ := run_bind_eq_ok h
  obtain ⟨_, _, hk, h⟩ := run_bind_eq_ok h
  cases hk
  have hfill := keeps_fillQueue _ hfill
  split at h
  · rename_i queue hqueue
    cases h
    exact ⟨hfill, fun _ => ⟨queue, hqueue⟩⟩
  · cases h
    exact ⟨hfill, fun hne => absurd rfl hne⟩

theorem skipToken_lt {l l' : Lexer} {token : Token} {queue : List Token}
    (hqueue : l.queue = token :: queue) (hne : token.sign ≠ .streamEnd)
    (h : skipToken.run l = .ok ((), l')) : l'.weight < l.weight := by
  cases h
  have hone : waiting (token :: queue) = waiting queue + 1 :=
    List.countP_cons_of_pos (bne_iff_ne.2 hne)
  simp only [Lexer.weight, Lexer.pending, hqueue, hone, List.drop_succ_cons, List.drop_zero]
  omega

/-! ## Before the first token -/

theorem takeBlock_append (room : Nat) (cs : List Char) :
    (takeBlock room cs).1 ++ (takeBlock room cs).2 = cs := by
  induction cs generalizing room with
  | nil => rfl
  | cons c cs ih =>
    unfold takeBlock
    split
    · exact congrArg (c :: ·) (ih _)
    · rfl

theorem length_takeBlocks_le (fuel : Nat) (cs : List Char) :
    (takeBlocks fuel cs).1.length ≤ cs.length := by
  induction fuel generalizing cs with
  | zero => exact Nat.zero_le _
  | succ fuel ih =>
    cases cs with
    | nil => exact Nat.zero_le _
    | cons c cs =>
      have hblock := congrArg List.length (takeBlock_append blockSize (c :: cs))
      have hothers := ih (takeBlock blockSize (c :: cs)).2
      rw [List.length_append] at hblock
      unfold takeBlocks
      simp only
      split
      · rw [List.length_append]
        omega
      · exact Nat.zero_le _

theorem weight_ofText_le (text : String) : (Lexer.ofText text).weight ≤ 4 * text.length := by
  have hblocks := length_takeBlocks_le (text.length + 1) text.toList
  show 4 * (takeBlocks (text.length + 1) text.toList).1.length + 0 ≤ 4 * text.length
  rw [String.length_toList] at hblocks
  omega

end TermMarkup.Yaml
