/-
The command does everything or nothing. What it is to write is said on its own, by the source, the
theme and the library: the tree of the source or its output. The command exits with success exactly
when there is such a text and it can be written where it belongs, be that a file or the standard
output; then it writes this text there and nothing elsewhere. Whatever goes wrong, nothing is written
at all.

All of this holds for any readers of arguments and themes, and for any files that are read and
written as a whole: looking at them changes nothing, and neither does a write that fails. The same
goes for the standard output.
-/
import TermMarkup.Command
import TermMarkup.Proofs.Meaning
import TermMarkup.Proofs.Rendering

namespace TermMarkup

variable {S : Type}

/-! ## Actions on files -/

/-- The action leaves every state as it is. -/
def Leaves {α : Type} (action : StateM S α) : Prop :=
  ∀ s, (action.run s).2 = s

theorem run_bind {α β : Type} (x : StateM S α) (f : α → StateM S β) (s : S) :
    (x >>= f).run s = (f (x.run s).1).run (x.run s).2 := rfl

theorem run_bind_of_leaves {α β : Type} {x : StateM S α} (h : Leaves x) (f : α → StateM S β)
    (s : S) : (x >>= f).run s = (f (x.run s).1).run s := by
  rw [run_bind, h s]

theorem mapError_eq_ok_iff {ε δ α : Type} {x : Except ε α} {f : ε → δ} {a : α} :
    x.mapError f = .ok a ↔ x = .ok a := by
  cases x with
  | error e => exact ⟨fun h => (by cases h), fun h => (by cases h)⟩
  | ok b => exact ⟨fun h => congrArg Except.ok (Except.ok.inj h), fun h => h ▸ rfl⟩

theorem run_pure {α : Type} (a : α) (s : S) : (pure a : StateM S α).run s = (a, s) := rfl

theorem leaves_pure {α : Type} (a : α) : Leaves (pure a : StateM S α) := fun _ => rfl

theorem Leaves.bind {α β : Type} {x : StateM S α} (hx : Leaves x) {f : α → StateM S β}
    (hf : ∀ a, Leaves (f a)) : Leaves (x >>= f) := by
  intro s
  rw [run_bind_of_leaves hx, hf]

/-- Files that are read and written as a whole: to look at them changes nothing, what can be read is
there, and to write or to print in vain changes nothing. -/
structure FileSystem.Whole (files : FileSystem (StateM S)) : Prop where
  isPresent : ∀ path, Leaves (files.isPresent path)
  read : ∀ path, Leaves (files.read path)
  standardInput : Leaves files.standardInput
  present_of_read : ∀ path s text, ((files.read path).run s).1 = .ok text →
    ((files.isPresent path).run s).1 = true
  failed_write : ∀ path text s fault, ((files.write path text).run s).1 = .error fault →
    ((files.write path text).run s).2 = s
  failed_print : ∀ text s fault, ((files.print text).run s).1 = .error fault →
    ((files.print text).run s).2 = s

/-- A folder is written as a whole. -/
theorem Folder.run_write (f : Folder) (path text : String) :
    (Folder.fileSystem.write path text).run f =
      match f.write path text with
      | .ok after => (.ok (), after)
      | .error fault => (.error fault, f) := by
  unfold Folder.fileSystem
  simp only [run_bind]
  change StateT.run (match f.write path text with | .ok _ => _ | .error _ => _) f = _
  cases f.write path text with
  | ok after => rfl
  | error fault => rfl

theorem Folder.whole_fileSystem : Folder.fileSystem.Whole where
  isPresent _ _ := rfl
  read _ _ := rfl
  standardInput _ := rfl
  present_of_read path f text h := by
    change f.read path = .ok text at h
    change (f.lookup path).isOk = true
    obtain ⟨entry, he, -⟩ := bind_eq_ok h
    rw [he]
    rfl
  failed_write path text f fault h := by
    rw [run_write] at h ⊢
    cases hw : f.write path text with
    | ok after => rw [hw] at h; cases h
    | error fault => rfl
  failed_print _ _ _ _ := rfl

namespace Command

variable {files : FileSystem (StateM S)} {s : S} {o : Options} {readers : Readers}

/-! ## What the command is to write -/

/-- The source: the markup argument, else what is in the input file, else the standard input. -/
def IsSource (files : FileSystem (StateM S)) (s : S) (o : Options) (source : String) : Prop :=
  match o.markup, o.input with
  | some markup, _ => source = markup
  | none, some path => ((files.read path).run s).1 = .ok source
  | none, none => (files.standardInput.run s).1 = .ok source

/-- The theme: the one in the theme file, else the built-in one. -/
def IsTheme (files : FileSystem (StateM S)) (s : S) (o : Options) (readers : Readers)
    (theme : Theme) : Prop :=
  match o.theme with
  | some path => ∃ text, ((files.read path).run s).1 = .ok text ∧ readers.theme text = .ok theme
  | none => theme = .builtin

/-- The text that the command is to write: the tree of the nodes of the source, if it is asked for,
or else what the source compiles to under the theme, unless that is empty. -/
inductive Due (files : FileSystem (StateM S)) (s : S) (o : Options) (readers : Readers) :
    String → Prop
  | tree {source : String} {nodes : List Node} (hs : IsSource files s o source)
    (ha : o.ast = true) (hn : readNodes source = .ok nodes) :
    Due files s o readers (Raw.pretty 0 (.array (Node.toRaws nodes)) ++ "\n")
  | output {source text : String} {theme : Theme} (hs : IsSource files s o source)
    (ha : o.ast = false) (ht : IsTheme files s o readers theme)
    (hc : compile theme (o.format.getD .ansi) source = .ok text) (hne : text ≠ "") :
    Due files s o readers text

/-- The text can be written to the output file, if there is one. -/
def Writable (files : FileSystem (StateM S)) (s : S) (o : Options) (text : String) : Prop :=
  ∀ path ∈ o.output, ((files.write path text).run s).1 = .ok ()

/-- The text can be printed on the standard output, if there is no output file. -/
def Printable (files : FileSystem (StateM S)) (s : S) (o : Options) (text : String) : Prop :=
  o.output = none → ((files.print text).run s).1 = .ok ()

/-- The text goes where it belongs and nowhere else: to the output file, if there is one, or else to
the standard output. -/
def Delivers (files : FileSystem (StateM S)) (s : S) (o : Options) (text : String)
    (outcome : Outcome) (after : S) : Prop :=
  outcome.exit = 0 ∧
    match o.output with
    | some path => outcome.standardOutput = "" ∧ after = ((files.write path text).run s).2
    | none => outcome.standardOutput = text ∧ after = ((files.print text).run s).2

/-! ## The stages of the command -/

/-- A source compiles to a text when its nodes are rendered so. -/
theorem compile_eq_ok_iff {theme : Theme} {format : Format} {source text : String} :
    compile theme format source = .ok text ↔ ∃ nodes rendering, readNodes source = .ok nodes ∧
      ({ theme } : Compiler).render format nodes = .ok rendering ∧ rendering.output = text := by
  constructor
  · intro h
    obtain ⟨nodes, hn, h⟩ := bind_eq_ok h
    cases hr : ({ theme } : Compiler).render format nodes with
    | error diagnostic => rw [hr] at h; cases h
    | ok rendering => rw [hr] at h; exact ⟨nodes, rendering, hn, hr, Except.ok.inj h⟩
  · rintro ⟨nodes, rendering, hn, hr, rfl⟩
    unfold compile
    rw [hn]
    simp only [bind, Except.bind, hr]
    rfl

section

variable (hf : files.Whole)

include hf

theorem leaves_readSource (o : Options) : Leaves (readSource files o) := by
  unfold readSource
  cases o.markup with
  | some markup => exact leaves_pure _
  | none =>
    cases o.input with
    | none => exact hf.standardInput.bind fun _ => leaves_pure _
    | some path =>
      refine (hf.isPresent path).bind fun present => ?_
      split
      · exact (hf.read path).bind fun _ => leaves_pure _
      · exact leaves_pure _

theorem leaves_ofFile (path : String) (read : String → Except Yaml.Failure Theme) :
    Leaves (Theme.ofFile files path read) := by
  unfold Theme.ofFile
  refine (hf.read path).bind fun text => ?_
  cases text with
  | error fault => exact leaves_pure _
  | ok text => exact leaves_pure _

theorem leaves_readTheme (o : Options) (readers : Readers) :
    Leaves (readTheme files o readers) := by
  unfold readTheme
  cases o.theme with
  | some path => exact (leaves_ofFile hf path readers.theme).bind fun _ => leaves_pure _
  | none => exact leaves_pure _

/-- A source is read exactly when there is one. -/
theorem readSource_eq_ok_iff {source : String} :
    ((readSource files o).run s).1 = .ok source ↔ IsSource files s o source := by
  unfold readSource IsSource
  cases o.markup with
  | some markup => exact ⟨fun h => (Except.ok.inj h).symm, fun h => congrArg Except.ok h.symm⟩
  | none =>
    cases o.input with
    | none =>
      simp only [run_bind_of_leaves hf.standardInput]
      exact mapError_eq_ok_iff
    | some path =>
      simp only [run_bind_of_leaves (hf.isPresent path)]
      split
      · rw [run_bind_of_leaves (hf.read path)]
        exact mapError_eq_ok_iff
      · rename_i hp
        exact ⟨fun h => (by cases h), fun h => absurd (hf.present_of_read path s source h) hp⟩

/-- A theme is read exactly when there is one. -/
theorem readTheme_eq_ok_iff {theme : Theme} :
    ((readTheme files o readers).run s).1 = .ok theme ↔ IsTheme files s o readers theme := by
  unfold readTheme IsTheme
  cases o.theme with
  | none => exact ⟨fun h => (Except.ok.inj h).symm, fun h => congrArg Except.ok h.symm⟩
  | some path =>
    simp only [run_bind_of_leaves (leaves_ofFile hf path _)]
    refine mapError_eq_ok_iff.trans ?_
    unfold Theme.ofFile
    rw [run_bind_of_leaves (hf.read path)]
    cases ((files.read path).run s).1 with
    | error fault => exact ⟨fun h => (by cases h), fun ⟨_, h, _⟩ => (by cases h)⟩
    | ok text =>
      simp only [run_pure, mapError_eq_ok_iff]
      refine ⟨fun h => ⟨text, rfl, h⟩, ?_⟩
      rintro ⟨_, ht, h⟩
      cases ht
      exact h

theorem leaves_result (o : Options) (readers : Readers) : Leaves (result files o readers) := by
  unfold result
  refine (leaves_readSource hf o).bind fun source => ?_
  cases source with
  | error error => exact leaves_pure _
  | ok source =>
    simp only
    cases readNodes source with
    | error error => exact leaves_pure _
    | ok nodes =>
      simp only
      split
      · exact leaves_pure _
      · refine (leaves_readTheme hf o readers).bind fun theme => ?_
        cases theme with
        | error error => exact leaves_pure _
        | ok theme =>
          simp only
          split
          · exact leaves_pure _
          · split <;> exact leaves_pure _

/-- The command comes to a text exactly when the text is due. -/
theorem result_eq_ok_iff {text : String} :
    ((result files o readers).run s).1 = .ok text ↔ Due files s o readers text := by
  unfold result
  rw [run_bind_of_leaves (leaves_readSource hf o)]
  constructor
  · intro h
    cases hs : ((readSource files o).run s).1 with
    | error error => rw [hs] at h; cases h
    | ok source =>
      rw [hs] at h
      have hs := (readSource_eq_ok_iff hf).1 hs
      simp only at h
      cases hn : readNodes source with
      | error error => rw [hn] at h; cases h
      | ok nodes =>
        rw [hn] at h
        simp only at h
        by_cases ha : o.ast = true
        · rw [if_pos ha] at h
          cases h
          exact .tree hs ha hn
        · rw [if_neg ha, run_bind_of_leaves (leaves_readTheme hf o readers)] at h
          cases ht : ((readTheme files o readers).run s).1 with
          | error error => rw [ht] at h; cases h
          | ok theme =>
            rw [ht] at h
            have ht := (readTheme_eq_ok_iff hf).1 ht
            simp only at h
            cases hr : ({ theme } : Compiler).render (o.format.getD .ansi) nodes with
            | error diagnostic => rw [hr] at h; cases h
            | ok rendering =>
              rw [hr] at h
              simp only at h
              have hc := compile_eq_ok_iff.2 ⟨nodes, rendering, hn, hr, rfl⟩
              by_cases he : rendering.output.isEmpty = true
              · rw [if_pos he] at h
                cases h
              · rw [if_neg he] at h
                cases h
                exact .output hs (Bool.not_eq_true _ ▸ ha) ht hc (mt String.isEmpty_iff.2 he)
  · intro h
    cases h with
    | tree hs ha hn =>
      simp only [(readSource_eq_ok_iff hf).2 hs, hn, if_pos ha, run_pure]
      rfl
    | output hs ha ht hc hne =>
      obtain ⟨nodes, rendering, hn, hr, rfl⟩ := compile_eq_ok_iff.1 hc
      have he : ¬ rendering.output.isEmpty = true := mt String.isEmpty_iff.1 hne
      simp only [(readSource_eq_ok_iff hf).2 hs, hn, ha, Bool.false_eq_true, if_false,
        run_bind_of_leaves (leaves_readTheme hf o readers), (readTheme_eq_ok_iff hf).2 ht, hr, if_neg he,
        run_pure]

/-- There is only one text to write. -/
theorem Due.unique {text other : String} (h : Due files s o readers text)
    (h' : Due files s o readers other) : text = other :=
  Except.ok.inj (((result_eq_ok_iff hf).2 h).symm.trans ((result_eq_ok_iff hf).2 h'))

/-- A text is delivered if it can be written where it belongs, or else everything is left as it
was. -/
theorem deliver_cases (text : String) :
    (Writable files s o text ∧ Printable files s o text ∧
      Delivers files s o text ((deliver files o text).run s).1 ((deliver files o text).run s).2) ∨
    (¬ (Writable files s o text ∧ Printable files s o text) ∧
      ∃ error, (deliver files o text).run s = (failure error, s)) := by
  unfold deliver Writable Printable Delivers
  cases o.output with
  | none =>
    rw [run_bind]
    cases hp : ((files.print text).run s).1 with
    | ok printed => exact .inl ⟨fun _ h => (by cases h), fun _ => rfl, rfl, rfl, rfl⟩
    | error fault =>
      refine .inr ⟨fun h => (by cases h.2 rfl), .notPrinted fault, ?_⟩
      rw [hf.failed_print text s fault hp]
      rfl
  | some path =>
    rw [run_bind]
    cases hw : ((files.write path text).run s).1 with
    | ok written =>
      exact .inl ⟨fun _ h => Option.some.inj h ▸ hw, fun h => (by cases h), rfl, rfl, rfl⟩
    | error fault =>
      refine .inr ⟨fun h => (by cases hw.symm.trans (h.1 path rfl)), .notWritten path fault, ?_⟩
      rw [hf.failed_write path text s fault hw]
      rfl

/-- The command delivers a text that is due and can be written, or it fails and leaves everything
as it was. -/
theorem run_cases (readers : Readers) :
    (∃ text, Due files s o readers text ∧ Writable files s o text ∧ Printable files s o text ∧
      Delivers files s o text ((run files o readers).run s).1 ((run files o readers).run s).2) ∨
    ((∀ text, Due files s o readers text → ¬ (Writable files s o text ∧ Printable files s o text)) ∧
      ∃ error, (run files o readers).run s = (failure error, s)) := by
  unfold run
  rw [run_bind_of_leaves (leaves_result hf o readers)]
  cases hr : ((result files o readers).run s).1 with
  | error error =>
    refine .inr ⟨fun text hd => ?_, error, rfl⟩
    cases hr.symm.trans ((result_eq_ok_iff hf).2 hd)
  | ok text =>
    have hd := (result_eq_ok_iff hf).1 hr
    obtain ⟨hw, hp, hdelivers⟩ | ⟨hnot, hfail⟩ := deliver_cases hf (s := s) (o := o) text
    · exact .inl ⟨text, hd, hw, hp, hdelivers⟩
    · exact .inr ⟨fun other hother => Due.unique hf hother hd ▸ hnot, hfail⟩

end

/-- The command is all or nothing, whatever it is asked, whatever the files are and however
arguments and themes are read. It succeeds exactly when there is a text to write and the text can be
written to its file or printed; then the text goes where it belongs and nowhere else; and when the
command fails, it writes nothing at all. -/
theorem answer_all_or_nothing (hf : files.Whole) {arguments : List String}
    (ho : readers.request arguments = .ok (.run o)) {outcome : Outcome} {after : S}
    (h : (answer files arguments readers).run s = (outcome, after)) :
    (outcome.exit = 0 ↔
      ∃ text, Due files s o readers text ∧ Writable files s o text ∧ Printable files s o text) ∧
    (∀ text, Due files s o readers text → Writable files s o text → Printable files s o text →
      Delivers files s o text outcome after) ∧
    (outcome.exit ≠ 0 → outcome.standardOutput = "" ∧ after = s) := by
  have hrun : (run files o readers).run s = (outcome, after) := by
    rw [← h]
    unfold answer
    rw [ho]
  obtain ⟨text, hd, hw, hp, hdelivers⟩ | ⟨hnone, error, hfail⟩ :=
    run_cases hf (s := s) (o := o) readers
  · rw [hrun] at hdelivers
    refine ⟨⟨fun _ => ⟨text, hd, hw, hp⟩, fun _ => hdelivers.1⟩, fun other hother _ _ => ?_,
      fun hexit => absurd hdelivers.1 hexit⟩
    rw [Due.unique hf hother hd]
    exact hdelivers
  · cases hrun.symm.trans hfail
    exact ⟨⟨fun hexit => (by cases hexit), fun ⟨text, hd, hwp⟩ => absurd hwp (hnone text hd)⟩,
      fun text hd hw hp => absurd ⟨hw, hp⟩ (hnone text hd), fun _ => ⟨rfl, rfl⟩⟩

/-- A file is compiled into another one. -/
theorem answer_all_or_nothing_output :
    Folder.fileSystem.Whole ∧
    ({} : Readers).request ["-o", "out", "--input=in", "-fmarkup"] =
      .ok (.run { input := some "in", output := some "out", format := some .markup }) ∧
    ∃ outcome after,
      (answer Folder.fileSystem ["-o", "out", "--input=in", "-fmarkup"]).run
        { files := [("in", "<bold>x</bold>")] } = (outcome, after) ∧
      outcome.exit = 0 ∧ outcome.standardOutput = "" ∧
      after = { files := [("in", "<bold>x</bold>"), ("out", "<bold>x</bold>")] } := by
  have ho : ({} : Readers).request ["-o", "out", "--input=in", "-fmarkup"] =
      .ok (.run { input := some "in", output := some "out", format := some .markup }) := by
    decide +kernel
  have hr : Folder.read { files := [("in", "<bold>x</bold>")] } "in" = .ok "<bold>x</bold>" := by
    decide +kernel
  have hw : Folder.write { files := [("in", "<bold>x</bold>")] } "out" "<bold>x</bold>" =
      .ok { files := [("in", "<bold>x</bold>"), ("out", "<bold>x</bold>")] } := by
    decide +kernel
  have hlex : Token.lex "<bold>x</bold>" = .ok [⟨.tagOpen, 0, 1⟩, ⟨.name "bold", 1, 5⟩,
      ⟨.tagEnd, 5, 6⟩, ⟨.text "x", 6, 7⟩, ⟨.closeOpen, 7, 9⟩, ⟨.name "bold", 9, 13⟩,
      ⟨.tagEnd, 13, 14⟩] := by decide +kernel
  have hn : readNodes "<bold>x</bold>" = .ok [.element .bold (.single (.text "x"))] := by
    unfold readNodes parse parseNodes
    rw [hlex]
    rfl
  have hc : compile .builtin .markup "<bold>x</bold>" = .ok "<bold>x</bold>" := by
    rw [compile_eq_ok hn]
    exact congrArg Except.ok (by decide +kernel)
  have hrun := Folder.run_write { files := [("in", "<bold>x</bold>")] } "out" "<bold>x</bold>"
  rw [hw] at hrun
  have hs : IsSource Folder.fileSystem { files := [("in", "<bold>x</bold>")] }
      { input := some "in", output := some "out", format := some .markup } "<bold>x</bold>" := hr
  obtain ⟨hexit, hout, hafter⟩ := (answer_all_or_nothing Folder.whole_fileSystem ho rfl).2.1 _
    (.output hs rfl rfl hc (by decide)) (fun path hp => (by cases hp; rw [hrun])) nofun
  rw [hrun] at hafter
  exact ⟨Folder.whole_fileSystem, ho, _, _, rfl, hexit, hout, hafter⟩

end Command

end TermMarkup
