/-
What is visible of a rendered document. Without the sequences of codes, rendering to a terminal
leaves the texts, the line breaks and the layout of the styled elements. None of it depends on a
font, so two documents that differ in fonts only, under themes that do, show the same characters.
-/
import TermMarkup.Proofs.Painting

namespace TermMarkup

open Node Render

/-! ## Visible characters -/

/-- The characters that are left without the sequences `ESC [ … m`; `inside` is set within one. What
no `m` ends is no sequence. -/
def visibleFrom (inside : Bool) : List Char → List Char
  | [] => []
  | c :: cs =>
    if inside then visibleFrom (c != 'm') cs
    else if c = esc ∧ cs.head? = some '[' ∧ 'm' ∈ cs then visibleFrom true cs
    else c :: visibleFrom false cs

/-- The text without the sequences of codes in it. -/
def visible (text : String) : String :=
  String.ofList (visibleFrom false text.toList)

theorem visibleFrom_of_notMem {cs : List Char} (h : esc ∉ cs) (rest : List Char) :
    visibleFrom false (cs ++ rest) = cs ++ visibleFrom false rest := by
  induction cs with
  | nil => rfl
  | cons c cs ih =>
    obtain ⟨hc, hcs⟩ := not_or.1 (mt List.mem_cons.2 h)
    have hne : ¬ (c = esc ∧ (cs ++ rest).head? = some '[' ∧ 'm' ∈ cs ++ rest) :=
      fun hs => hc hs.1.symm
    rw [List.cons_append, visibleFrom, if_neg Bool.false_ne_true, if_neg hne, ih hcs]
    rfl

theorem visibleFrom_inside {cs : List Char} (h : 'm' ∉ cs) (rest : List Char) :
    visibleFrom true (cs ++ 'm' :: rest) = visibleFrom false rest := by
  induction cs with
  | nil => rfl
  | cons c cs ih =>
    obtain ⟨hc, hcs⟩ := not_or.1 (mt List.mem_cons.2 h)
    have hne : (c != 'm') = true := bne_iff_ne.2 (Ne.symm hc)
    rw [List.cons_append, visibleFrom, if_pos rfl, hne, ih hcs]

theorem m_notMem_repr (code : Nat) : 'm' ∉ (Nat.repr code).toList := by
  rw [Nat.toList_repr]
  intro hm
  exact absurd (Nat.isDigit_of_mem_toDigits (by omega) (by omega) hm) (by decide)

theorem m_notMem_parameters (codes : List Nat) :
    'm' ∉ (String.intercalate ";" (codes.map Nat.repr)).toList := by
  induction codes with
  | nil => exact List.not_mem_nil
  | cons code codes ih =>
    rw [List.map_cons]
    by_cases hcodes : codes = []
    · rw [hcodes, List.map_nil, String.intercalate_singleton]
      exact m_notMem_repr code
    · rw [String.intercalate_cons_of_ne_nil (mt List.map_eq_nil_iff.1 hcodes), String.toList_append,
        String.toList_append, List.mem_append, List.mem_append, not_or, not_or]
      exact ⟨⟨m_notMem_repr code, by decide⟩, ih⟩

/-- What a text shows, whatever follows it: it leaves no sequence open that what follows could
close. -/
def Shows (text shown : String) : Prop :=
  ∀ rest, visibleFrom false (text.toList ++ rest) = shown.toList ++ visibleFrom false rest

namespace Shows

theorem visible_eq {text shown : String} (h : Shows text shown) : visible text = shown := by
  have hall := h []
  rw [List.append_nil, visibleFrom, List.append_nil] at hall
  unfold visible
  rw [hall, String.ofList_toList]

theorem plain {text : String} (h : esc ∉ text.toList) : Shows text text :=
  visibleFrom_of_notMem h

theorem append {a b x y : String} (ha : Shows a x) (hb : Shows b y) : Shows (a ++ b) (x ++ y) := by
  intro rest
  rw [String.toList_append, String.toList_append, List.append_assoc, List.append_assoc, ha, hb]

theorem sequence (codes : List Nat) : Shows (Sgr.sequence codes) "" := by
  intro rest
  cases codes with
  | nil => rfl
  | cons code codes =>
    have hsequence : (Sgr.sequence (code :: codes)).toList ++ rest =
        esc :: '[' :: ((String.intercalate ";" ((code :: codes).map Nat.repr)).toList ++
          'm' :: rest) := by
      unfold Sgr.sequence
      simp [esc]
    rw [hsequence, visibleFrom, if_neg Bool.false_ne_true, if_pos (by simp), visibleFrom,
      if_pos rfl]
    exact visibleFrom_inside (m_notMem_parameters (code :: codes)) rest

end Shows

/-! ## What nodes show -/

namespace Node

mutual

/-- What a node shows besides its codes. -/
def shown (theme : Theme) : Node → String
  | .text value => Emoji.substitute value
  | .lineBreak => "\n"
  | .element e content =>
    (e.layout theme).top ++ (e.layout theme).left ++ contentShown theme content ++
      (e.layout theme).right ++ (e.layout theme).bottom

def contentShown (theme : Theme) : Content Node → String
  | .absent => ""
  | .single node => shown theme node
  | .many nodes => allShown theme nodes

/-- What a list of nodes shows besides its codes. -/
def allShown (theme : Theme) : List Node → String
  | [] => ""
  | node :: nodes => shown theme node ++ allShown theme nodes

end

section

variable (theme : Theme)

theorem contentShown_eq (content : Content Node) :
    contentShown theme content = allShown theme content.children := by
  cases content with
  | absent => rfl
  | single node => exact (String.append_empty).symm
  | many nodes => rfl

@[simp] theorem allShown_nil : allShown theme [] = "" := rfl

@[simp] theorem allShown_text (value : String) (nodes : List Node) :
    allShown theme (.text value :: nodes) = Emoji.substitute value ++ allShown theme nodes := rfl

@[simp] theorem allShown_lineBreak (nodes : List Node) :
    allShown theme (.lineBreak :: nodes) = "\n" ++ allShown theme nodes := rfl

@[simp] theorem allShown_element (e : Element) (content : Content Node) (nodes : List Node) :
    allShown theme (.element e content :: nodes) =
      (e.layout theme).top ++ (e.layout theme).left ++ allShown theme content.children ++
        (e.layout theme).right ++ (e.layout theme).bottom ++ allShown theme nodes := by
  rw [allShown, shown, contentShown_eq]

theorem allShown_append (xs ys : List Node) :
    allShown theme (xs ++ ys) = allShown theme xs ++ allShown theme ys := by
  induction xs with
  | nil => exact (String.empty_append).symm
  | cons node nodes ih => rw [List.cons_append, allShown, allShown, ih, String.append_assoc]

end

end Node

/-- Rendered nodes show their texts and layout. -/
theorem shows_marks {theme : Theme} {nodes : List Node} {depth : Nat}
    (hn : Throughout (fun _ node => node.ShownPlain theme) depth nodes) (above : List Node) :
    Shows (output (marks ⟨.ansi, theme⟩ above nodes)) (allShown theme nodes) := by
  induction nodes using documentInduction generalizing depth above with
  | nil => exact .plain List.not_mem_nil
  | text value nodes ih =>
    obtain ⟨hv, hn⟩ := throughout_text.1 hn
    rw [marks_text, output_cons, allShown_text]
    exact .append (.plain (Emoji.esc_notMem_substitute hv)) (ih hn above)
  | lineBreak nodes ih =>
    obtain ⟨-, hn⟩ := throughout_lineBreak.1 hn
    have hbreak : esc ∉ "\n".toList := by decide
    rw [marks_lineBreak, output_cons, allShown_lineBreak]
    exact .append (.plain hbreak) (ih hn above)
  | element e content nodes ihc ih =>
    obtain ⟨he, hc, hn⟩ := throughout_element.1 hn
    have hl := he.layout
    have hopen : Shows (Mark.opening ⟨.ansi, theme⟩ above (.element e content)).text
        ((e.layout theme).top ++ "" ++ (e.layout theme).left) := by
      rw [text_opening]
      exact .append (.append (.plain hl.top) (.sequence _)) (.plain hl.left)
    have hclose : Shows (Mark.closing ⟨.ansi, theme⟩ above (.element e content)).text
        ((e.layout theme).right ++ "" ++ (e.layout theme).bottom) := by
      rw [text_closing]
      exact .append (.append (.plain hl.right) (.sequence _)) (.plain hl.bottom)
    rw [String.append_empty] at hopen hclose
    have hall := hopen.append ((ihc hc (.element e content :: above)).append
      (hclose.append (ih hn above)))
    simpa [String.append_assoc] using hall

/-! ## Documents that differ in fonts -/

/-- Documents that differ in fonts only: in those of styled elements, and in the elements that do no
more than set a font, which may stand around any run of nodes of either. -/
inductive Restyled : List Node → List Node → Prop
  | nil : Restyled [] []
  | text (value : String) {xs ys : List Node} (h : Restyled xs ys) :
    Restyled (.text value :: xs) (.text value :: ys)
  | lineBreak {xs ys : List Node} (h : Restyled xs ys) : Restyled (.lineBreak :: xs) (.lineBreak :: ys)
  | styled (kind : StyledKind) {own own' : Style} (hs : own.spacing = own'.spacing)
    (hl : own.list = own'.list) {content content' : Content Node}
    (hc : Restyled content.children content'.children) {xs ys : List Node} (h : Restyled xs ys) :
    Restyled (.element (.styled kind own) content :: xs) (.element (.styled kind own') content' :: ys)
  | left {e : Element} (he : e.isWrapper = true) {content : Content Node} {xs ys : List Node}
    (h : Restyled (content.children ++ xs) ys) : Restyled (.element e content :: xs) ys
  | right {e : Element} (he : e.isWrapper = true) {content : Content Node} {xs ys : List Node}
    (h : Restyled xs (content.children ++ ys)) : Restyled xs (.element e content :: ys)

/-- Themes that differ in fonts only. -/
def Theme.Restyled (theme theme' : Theme) : Prop :=
  ∀ kind, (theme.styled kind).spacing = (theme'.styled kind).spacing ∧
    (theme.styled kind).list = (theme'.styled kind).list

section

variable {theme theme' : Theme}

theorem Theme.Restyled.layout (h : theme.Restyled theme') (kind : StyledKind) {own own' : Style}
    (hs : own.spacing = own'.spacing) (hl : own.list = own'.list) :
    (Element.styled kind own).layout theme = (Element.styled kind own').layout theme' := by
  have hspacing : (effective theme kind own).spacing = (effective theme' kind own').spacing := by
    show (((Theme.builtin.styled kind).spacing.merge (theme.styled kind).spacing).merge own.spacing) = _
    rw [(h kind).1, hs]
    rfl
  have hlist : (effective theme kind own).list = (effective theme' kind own').list := by
    show (((Theme.builtin.styled kind).list.merge (theme.styled kind).list).merge own.list) = _
    rw [(h kind).2, hl]
    rfl
  exact Element.layout_styled_congr hspacing fun _ => hlist

theorem allShown_wrapper {e : Element} (he : e.isWrapper = true) (content : Content Node)
    (nodes : List Node) :
    allShown theme (.element e content :: nodes) = allShown theme (content.children ++ nodes) := by
  rw [allShown_element, Element.layout_of_isWrapper he, allShown_append]
  simp

theorem Restyled.allShown_eq (ht : theme.Restyled theme') {nodes nodes' : List Node}
    (h : Restyled nodes nodes') : allShown theme nodes = allShown theme' nodes' := by
  induction h with
  | nil => rfl
  | text value _ ih => rw [allShown_text, allShown_text, ih]
  | lineBreak _ ih => rw [allShown_lineBreak, allShown_lineBreak, ih]
  | styled kind hs hl _ _ ihc ih =>
    rw [allShown_element, allShown_element, ht.layout kind hs hl, ihc, ih]
  | left he _ ih => rw [allShown_wrapper he, ih]
  | right he _ ih => rw [allShown_wrapper he, ih]

/-- Two documents that differ in fonts only, under themes that differ in fonts only, show the same
characters on a terminal. -/
theorem visible_output_eq {nodes nodes' : List Node} {r r' : Rendering}
    (hr : ({ theme } : Compiler).render .ansi nodes = .ok r)
    (hr' : ({ theme := theme' } : Compiler).render .ansi nodes' = .ok r')
    (hp : ∀ o ∈ occurrences nodes, o.node.ShownPlain theme)
    (hp' : ∀ o ∈ occurrences nodes', o.node.ShownPlain theme')
    (hn : Restyled nodes nodes') (ht : theme.Restyled theme') :
    visible r.output = visible r'.output := by
  obtain ⟨-, rfl⟩ := Compiler.render_eq_ok_iff.1 hr
  obtain ⟨-, rfl⟩ := Compiler.render_eq_ok_iff.1 hr'
  have hs := shows_marks (throughout_zero.2 hp) []
  have hs' := shows_marks (throughout_zero.2 hp') []
  calc visible (output (marks ⟨.ansi, theme⟩ [] nodes)) = allShown theme nodes := hs.visible_eq
    _ = allShown theme' nodes' := hn.allShown_eq ht
    _ = visible (output (marks ⟨.ansi, theme'⟩ [] nodes')) := hs'.visible_eq.symm

end

/-- A list item that stands alone under one theme, and in a color element under another, with other
fonts on it and in it. -/
theorem visible_output_eq_item :
    let theme : Theme := { li := { font := { fg := some .green }, list := { bullet := some "- " } } }
    let theme' : Theme :=
      { li := { font := { bold := some true }, list := { bullet := some "- " } }
        h1 := { font := { bg := some .white } } }
    let item := Node.element
      (.styled .listItem { font := { fg := some .red }, spacing := { left := some 2 } })
      (.many [.text "m", .element .bold (.single (.text ":heart:"))])
    let item' := Node.element
      (.styled .listItem { font := { underline := some .double }, spacing := { left := some 2 } })
      (.many [.element (.underline .single) (.single (.text "m")), .text ":heart:"])
    let nodes := [item, .lineBreak]
    let nodes' := [Node.element (.color (some .blue) none) (.many [item', .lineBreak])]
    (∀ o ∈ occurrences nodes, o.node.ShownPlain theme) ∧
    (∀ o ∈ occurrences nodes', o.node.ShownPlain theme') ∧
    Restyled nodes nodes' ∧ theme.Restyled theme' ∧
    ∃ r r' : Rendering,
      ({ theme } : Compiler).render .ansi nodes = .ok r ∧
      ({ theme := theme' } : Compiler).render .ansi nodes' = .ok r' ∧
      visible r.output = visible r'.output := by
  intro theme theme' item item' nodes nodes'
  have hr : ∃ r, ({ theme } : Compiler).render .ansi nodes = .ok r :=
    ⟨_, Compiler.render_eq_ok_iff.2 ⟨by decide, rfl⟩⟩
  have hr' : ∃ r, ({ theme := theme' } : Compiler).render .ansi nodes' = .ok r :=
    ⟨_, Compiler.render_eq_ok_iff.2 ⟨by decide, rfl⟩⟩
  have hbullet : ∀ text ∈ some "- ", esc ∉ text.toList := by
    rintro text ⟨⟩
    decide
  have hp : ∀ o ∈ occurrences nodes, o.node.ShownPlain theme := by
    simp [occurrences, nodes, item, ShownPlain, esc]
    exact hbullet
  have hp' : ∀ o ∈ occurrences nodes', o.node.ShownPlain theme' := by
    simp [occurrences, nodes', item', ShownPlain, esc]
    exact hbullet
  have hn : Restyled nodes nodes' := by
    apply Restyled.right rfl
    apply Restyled.styled .listItem
    · rfl
    · rfl
    · exact .right rfl (.text "m" (.left rfl (.text ":heart:" .nil)))
    · exact .lineBreak .nil
  have ht : theme.Restyled theme' := by
    intro kind
    cases kind <;> exact ⟨rfl, rfl⟩
  obtain ⟨r, hr⟩ := hr
  obtain ⟨r', hr'⟩ := hr'
  exact ⟨hp, hp', hn, ht, r, r', hr, hr', visible_output_eq hr hr' hp hp' hn ht⟩

end TermMarkup
