/-
Styles and themes as records: what a style or a theme writes is read back as it was, and a part of
what a theme writes is read as that part of it. A record sets one field after the other, and each
field changes what its own key holds and nothing else. So a key that is left out keeps what the
record starts from: nothing in a style, and the built-in entry in a theme.
-/
import TermMarkup.Record.Tree
import TermMarkup.Proofs.Setting

namespace TermMarkup

/-- The object with only the fields whose keys are chosen. -/
def Raw.only (chosen : String → Bool) : Raw → Raw
  | .object fields => .object (fields.filter fun field => chosen field.1)
  | raw => raw

theorem Raw.only_true (raw : Raw) : raw.only (fun _ => true) = raw := by
  cases raw with
  | object fields => rw [only, List.filter_true]
  | null | bool _ | number _ | string _ | array _ => rfl

namespace Record

/-! ## Fields one after the other -/

section

variable {σ β : Type} {get : σ → String → β}

/-- The key now holds the value, and every other key what it held before. -/
def Sets (get : σ → String → β) (start : σ) (key : String) (value : β)
    (result : Except RecordFault σ) : Prop :=
  ∃ next, result = .ok next ∧ ∀ k, get next k = if k = key then value else get start k

/-- If each field of an object sets its key, then in the end the keys of the object hold what was
set, and every other key what it held at the start. -/
theorem treeRecord_sets {name : String} {fields : List String}
    {set : σ → String → Raw → Except RecordFault σ} (value : String → β)
    {given : List (String × Raw)} (hk : ∀ field ∈ given, field.1 ∈ fields)
    (hs : ∀ field ∈ given, ∀ done, Sets get done field.1 (value field.1) (set done field.1 field.2))
    (start : σ) :
    ∃ done, treeRecord name fields set start (.object given) = .ok done ∧
      ∀ k, get done k = if k ∈ given.map Prod.fst then value k else get start k := by
  induction given generalizing start with
  | nil => exact ⟨start, rfl, fun k => (if_neg List.not_mem_nil).symm⟩
  | cons field given ih =>
    rw [List.forall_mem_cons] at hk hs
    obtain ⟨next, hnext, hget⟩ := hs.1 start
    obtain ⟨done, hdone, hall⟩ := ih hk.2 hs.2 next
    refine ⟨done, ?_, fun k => ?_⟩
    · show (if fields.contains field.1 then set start field.1 field.2 else _) >>= _ = _
      rw [if_pos (List.contains_iff_mem.2 hk.1), hnext]
      exact hdone
    · rw [hall, hget]
      simp only [List.map_cons, List.mem_cons]
      by_cases hm : k ∈ given.map Prod.fst
      · rw [if_pos hm, if_pos (Or.inr hm)]
      · by_cases he : k = field.1
        · rw [if_neg hm, if_pos he, if_pos (Or.inl he), he]
        · rw [if_neg hm, if_neg he, if_neg (not_or.2 ⟨he, hm⟩)]

/-- Reading some of the fields that were written for the rows of a table: where each row sets its
key, the chosen keys of the table hold what their rows hold, and every other key what it held at the
start. -/
theorem treeRecord_written {α : Type} {get : σ → String → Option α} {write : α → Raw}
    {rows : List (String × α)} (hn : (rows.map Prod.fst).Nodup) (name : String)
    {fields : List String} {set : σ → String → Raw → Except RecordFault σ}
    (hs : ∀ key x, (key, x) ∈ rows →
      key ∈ fields ∧ ∀ done, Sets get done key (some x) (set done key (write x)))
    (chosen : String → Bool) (start : σ) :
    ∃ done, treeRecord name fields set start
        ((Raw.ofFields (rows.map fun row => (row.1, write row.2))).only chosen) = .ok done ∧
      ∀ k, get done k = if chosen k then (rows.lookup k).or (get start k) else get start k := by
  have hkeys : (rows.map fun row => (row.1, write row.2)).map Prod.fst = rows.map Prod.fst := by
    rw [List.map_map]
    rfl
  have hlookup (k : String) :
      (Raw.insertAll [] (rows.map fun row => (row.1, write row.2))).lookup k =
        (rows.lookup k).map write := by
    rw [Raw.lookup_insertAll (hkeys ▸ hn), lookup_map_value, List.lookup_nil, Option.or_none]
  have hordered := Raw.ordered_insertAll Raw.ordered_nil (rows.map fun row => (row.1, write row.2))
  rw [Raw.ofFields_eq, Raw.only]
  generalize Raw.insertAll [] (rows.map fun row => (row.1, write row.2)) = written
    at hlookup hordered
  -- a field that is given was written for a row of the table
  have hgiven : ∀ field ∈ written.filter fun field => chosen field.1,
      ∃ x, rows.lookup field.1 = some x ∧ field.2 = write x ∧ (field.1, x) ∈ rows := by
    intro field hf
    have hl := hordered.lookup_eq_some (List.mem_of_mem_filter hf)
    rw [hlookup] at hl
    obtain ⟨x, hx, he⟩ := Option.map_eq_some_iff.1 hl
    exact ⟨x, hx, he.symm, mem_of_lookup hx⟩
  have hfields : ∀ field ∈ written.filter fun field => chosen field.1, field.1 ∈ fields := by
    intro field hf
    obtain ⟨x, -, -, hm⟩ := hgiven field hf
    exact (hs _ _ hm).1
  have hsets : ∀ field ∈ written.filter fun field => chosen field.1, ∀ done,
      Sets get done field.1 (rows.lookup field.1) (set done field.1 field.2) := by
    intro field hf done
    obtain ⟨x, hx, he, hm⟩ := hgiven field hf
    rw [hx, he]
    exact (hs _ _ hm).2 done
  have hmem (k : String) : k ∈ (written.filter fun field => chosen field.1).map Prod.fst ↔
      chosen k = true ∧ (rows.lookup k).isSome = true := by
    rw [← Option.isSome_map (f := write), ← hlookup, List.mem_map]
    constructor
    · rintro ⟨field, hf, rfl⟩
      rw [List.mem_filter] at hf
      exact ⟨hf.2, Option.isSome_of_eq_some (hordered.lookup_eq_some hf.1)⟩
    · rintro ⟨hc, hl⟩
      obtain ⟨raw, hraw⟩ := Option.isSome_iff_exists.1 hl
      exact ⟨(k, raw), List.mem_filter.2 ⟨mem_of_lookup hraw, hc⟩, rfl⟩
  obtain ⟨done, hdone, hget⟩ := treeRecord_sets (fun k => rows.lookup k) hfields hsets start
  refine ⟨done, hdone, fun k => ?_⟩
  rw [hget]
  simp only [hmem]
  cases hc : chosen k <;> cases hl : rows.lookup k <;> simp

end

/-! ## Settings -/

/-- A reader of leaves that reads the untyped form of a setting as what is set. -/
def ReadsBack {α : Type} (f : α → Setting) (read : Raw → Except RecordFault (Option α)) : Prop :=
  ∀ a, read (f a).toRaw = .ok (some a)

theorem readsBack_color : ReadsBack .color tree.color := by
  intro c
  cases c <;> rfl

theorem readsBack_underline : ReadsBack .underline tree.underline := by
  intro u
  cases u <;> rfl

theorem readsBack_flag : ReadsBack .flag tree.flag := fun _ => rfl

theorem readsBack_text : ReadsBack .text tree.text := fun _ => rfl

theorem readsBack_count : ReadsBack .count tree.count := by
  intro n
  have hcount : Count.ofNat? n.val = some n := by
    unfold Count.ofNat?
    rw [dif_pos n.isLt]
  have hread : treeCount (Setting.count n).toRaw = .ok n := by
    show treeCount (.number (.int n.val)) = _
    unfold treeCount
    simp only [Int.natCast_nonneg, if_true, Int.toNat_natCast, hcount]
  show (treeCount (Setting.count n).toRaw).map some = _
  rw [hread]
  rfl

section

variable {σ : Type} {embed : σ → Style}

/-- Reading a leaf and storing it sets its key. -/
theorem ReadsBack.sets {α : Type} {f : α → Setting} {read : Raw → Except RecordFault (Option α)}
    (hr : ReadsBack f read) {start : σ} {key : String} {put : Option α → σ}
    (hput : ∀ v k, (embed (put v)).held k = if k = key then v.map f else (embed start).held k)
    {held : Option α} {x : Setting} (hx : some x = held.map f) :
    Sets (fun s => (embed s).held) start key (some x)
      (read x.toRaw >>= fun v => pure (put v)) := by
  obtain ⟨a, -, rfl⟩ := Option.map_eq_some_iff.1 hx.symm
  refine ⟨put (some a), ?_, hput (some a)⟩
  rw [hr a]
  rfl

/-- A section of a style, each setting of which sets its key, is read back from its settings. -/
theorem treeRecord_settings (name : String) (hinj : Function.Injective embed)
    {fields : List String} {set : σ → String → Raw → Except RecordFault σ} {start s : σ}
    (hstart : embed start = {})
    (hs : ∀ key x, (key, x) ∈ (embed s).settings → key ∈ fields ∧
      ∀ done, Sets (fun s => (embed s).held) done key (some x) (set done key x.toRaw)) :
    treeRecord name fields set start
      (.ofFields ((embed s).settings.map fun row => (row.1, row.2.toRaw))) = .ok s := by
  have hnodup : ((embed s).settings.map Prod.fst).Nodup := by
    rw [Style.settings_eq]
    exact (keys_settingsOf _).nodup (Style.nodup_table _)
  obtain ⟨done, hdone, hget⟩ := treeRecord_written hnodup name hs (fun _ => true) start
  rw [Raw.only_true] at hdone
  rw [hdone]
  refine congrArg Except.ok (hinj (Style.eq_of_held fun key => ?_))
  rw [hget, if_pos rfl, hstart, Style.held_empty, Option.or_none, Style.settings_eq,
    lookup_settingsOf (Style.nodup_table _), Style.held]

end

/-! ## Sections -/

/-- The style with nothing set but in its font. -/
def fontOnly (f : Font) : Style := { font := f }

/-- The style with nothing set but in its spacing. -/
def spacingOnly (s : Spacing) : Style := { spacing := s }

/-- The style with nothing set but in its list section. -/
def listingOnly (l : Listing) : Style := { list := l }

theorem font_toRaw (f : Font) :
    font tree (.ofFields (f.settings.map fun row => (row.1, row.2.toRaw))) = .ok f := by
  have hinj : Function.Injective fontOnly := fun _ _ h => congrArg Style.font h
  have hsettings : (fontOnly f).settings = f.settings := by
    simp [fontOnly, Style.settings, Spacing.settings, Listing.settings, settingsOf]
  have hs : ∀ key x, (key, x) ∈ (fontOnly f).settings → key ∈ fontFields ∧ ∀ done,
      Sets (fun s => (fontOnly s).held) done key (some x) (setFont tree done key x.toRaw) := by
    intro key x hx
    rw [hsettings, Font.settings, mem_settingsOf] at hx
    simp only [List.mem_cons, Prod.mk.injEq, List.not_mem_nil, or_false] at hx
    rcases hx with ⟨rfl, hx⟩ | ⟨rfl, hx⟩ | ⟨rfl, hx⟩ | ⟨rfl, hx⟩ | ⟨rfl, hx⟩
    · exact ⟨by decide, fun done => readsBack_color.sets
        (fun _ => Style.held_set ((fontOnly done).table.take 0) rfl rfl) hx⟩
    · exact ⟨by decide, fun done => readsBack_color.sets
        (fun _ => Style.held_set ((fontOnly done).table.take 1) rfl rfl) hx⟩
    · exact ⟨by decide, fun done => readsBack_flag.sets
        (fun _ => Style.held_set ((fontOnly done).table.take 2) rfl rfl) hx⟩
    · exact ⟨by decide, fun done => readsBack_underline.sets
        (fun _ => Style.held_set ((fontOnly done).table.take 3) rfl rfl) hx⟩
    · exact ⟨by decide, fun done => readsBack_flag.sets
        (fun _ => Style.held_set ((fontOnly done).table.take 4) rfl rfl) hx⟩
  rw [← hsettings]
  exact treeRecord_settings "FontStyle" hinj rfl hs

theorem spacing_toRaw (s : Spacing) :
    spacing tree (.ofFields (s.settings.map fun row => (row.1, row.2.toRaw))) = .ok s := by
  have hinj : Function.Injective spacingOnly := fun _ _ h => congrArg Style.spacing h
  have hsettings : (spacingOnly s).settings = s.settings := by
    simp [spacingOnly, Style.settings, Font.settings, Listing.settings, settingsOf]
  have hs : ∀ key x, (key, x) ∈ (spacingOnly s).settings → key ∈ spacingFields ∧ ∀ done,
      Sets (fun s => (spacingOnly s).held) done key (some x) (setSpacing tree done key x.toRaw) := by
    intro key x hx
    rw [hsettings, Spacing.settings, mem_settingsOf] at hx
    simp only [List.mem_cons, Prod.mk.injEq, List.not_mem_nil, or_false] at hx
    rcases hx with ⟨rfl, hx⟩ | ⟨rfl, hx⟩ | ⟨rfl, hx⟩ | ⟨rfl, hx⟩ | ⟨rfl, hx⟩
    · exact ⟨by decide, fun done => readsBack_count.sets
        (fun _ => Style.held_set ((spacingOnly done).table.take 5) rfl rfl) hx⟩
    · exact ⟨by decide, fun done => readsBack_count.sets
        (fun _ => Style.held_set ((spacingOnly done).table.take 6) rfl rfl) hx⟩
    · exact ⟨by decide, fun done => readsBack_count.sets
        (fun _ => Style.held_set ((spacingOnly done).table.take 7) rfl rfl) hx⟩
    · exact ⟨by decide, fun done => readsBack_count.sets
        (fun _ => Style.held_set ((spacingOnly done).table.take 8) rfl rfl) hx⟩
    · exact ⟨by decide, fun done => readsBack_count.sets
        (fun _ => Style.held_set ((spacingOnly done).table.take 9) rfl rfl) hx⟩
  rw [← hsettings]
  exact treeRecord_settings "SpacingStyle" hinj rfl hs

theorem listing_toRaw (l : Listing) :
    listing tree (.ofFields (l.settings.map fun row => (row.1, row.2.toRaw))) = .ok l := by
  have hinj : Function.Injective listingOnly := fun _ _ h => congrArg Style.list h
  have hsettings : (listingOnly l).settings = l.settings := by
    simp [listingOnly, Style.settings, Font.settings, Spacing.settings, settingsOf]
  have hs : ∀ key x, (key, x) ∈ (listingOnly l).settings → key ∈ listingFields ∧ ∀ done,
      Sets (fun s => (listingOnly s).held) done key (some x) (setListing tree done key x.toRaw) := by
    intro key x hx
    rw [hsettings, Listing.settings, mem_settingsOf] at hx
    simp only [List.mem_cons, Prod.mk.injEq, List.not_mem_nil, or_false] at hx
    rcases hx with ⟨rfl, hx⟩ | ⟨rfl, hx⟩
    · exact ⟨by decide, fun done => readsBack_text.sets
        (fun _ => Style.held_set ((listingOnly done).table.take 10) rfl rfl) hx⟩
    · exact ⟨by decide, fun done => readsBack_count.sets
        (fun _ => Style.held_set ((listingOnly done).table.take 11) rfl rfl) hx⟩
  rw [← hsettings]
  exact treeRecord_settings "ListStyle" hinj rfl hs

end Record

/-! ## Styles and themes -/

open Record

/-- A style is read back from what it writes. -/
theorem Style.ofRaw_toRaw (s : Style) : Style.ofRaw s.toRaw = .ok s := by
  have hfields : s.toRaw = .object
      [("font", .ofFields (s.font.settings.map fun row => (row.1, row.2.toRaw))),
        ("list", .ofFields (s.list.settings.map fun row => (row.1, row.2.toRaw))),
        ("spacing", .ofFields (s.spacing.settings.map fun row => (row.1, row.2.toRaw)))] := by
    have hspacing : ¬ "spacing" < "font" := by decide
    have hlist : ¬ "list" < "font" := by decide
    have hbetween : "list" < "spacing" := by decide
    unfold Style.toRaw
    rw [Raw.ofFields_eq]
    simp [Raw.insertAll, Raw.insert, hspacing, hlist, hbetween]
  rw [hfields]
  show setStyle tree {} "font" _ >>= (fun s => setStyle tree s "list" _ >>= fun s =>
    setStyle tree s "spacing" _ >>= pure) = _
  simp only [setStyle, font_toRaw, listing_toRaw, spacing_toRaw, bind, Except.bind, pure,
    Except.pure]

namespace Theme

theorem lookup_entries (t : Theme) (kind : Kind) : t.entries.lookup kind.tag = t.entry? kind := by
  cases kind with
  | styled kind => cases kind <;> rfl
  | text | lineBreak | bold | italics | underline | color => rfl

theorem nodup_entries (t : Theme) : (t.entries.map Prod.fst).Nodup := by
  show themeFields.Nodup
  decide

/-- A theme is given by its entries. -/
theorem eq_of_entry? {t u : Theme} (h : ∀ kind, t.entry? kind = u.entry? kind) : t = u := by
  have hstyled (kind : StyledKind) : t.styled kind = u.styled kind :=
    Option.some.inj (h (.styled kind))
  have hbreak : t.br = u.br := Option.some.inj (h .lineBreak)
  exact Theme.mk.injEq .. |>.mpr ⟨hstyled .h1, hstyled .h2, hstyled .h3, hstyled .body,
    hstyled .paragraph, hstyled .div, hstyled .span, hstyled .listItem, hbreak⟩

/-- Themes whose entries differ under one name have the same elsewhere. -/
theorem entries_set {t u : Theme} {name : String} {old new : Style}
    (before : List (String × Style)) {after : List (String × Style)}
    (ht : t.entries = before ++ (name, old) :: after)
    (hu : u.entries = before ++ (name, new) :: after) (k : String) :
    u.entries.lookup k = if k = name then some new else t.entries.lookup k := by
  have hname : name ∉ before.map Prod.fst := by
    have hn := t.nodup_entries
    rw [ht, List.map_append, List.map_cons, List.nodup_append] at hn
    exact fun hb => hn.2.2 name hb name List.mem_cons_self rfl
  rw [ht, hu, lookup_replace hname old new]

theorem sets_entry {done : Theme} {name : String} {style : Style} {put : Style → Theme}
    (hput : ∀ s k, (put s).entries.lookup k =
      if k = name then some s else done.entries.lookup k) :
    Sets (fun t k => t.entries.lookup k) done name (some style)
      (Record.style tree style.toRaw >>= fun s => pure (put s)) := by
  refine ⟨put style, ?_, hput style⟩
  rw [show Record.style tree style.toRaw = .ok style from style.ofRaw_toRaw]
  rfl

theorem setTheme_sets {name : String} {t : Theme} {style : Style} (h : (name, style) ∈ t.entries)
    (done : Theme) :
    Sets (fun t k => t.entries.lookup k) done name (some style)
      (setTheme tree done name style.toRaw) := by
  simp only [entries, List.mem_cons, Prod.mk.injEq, List.not_mem_nil, or_false] at h
  rcases h with ⟨rfl, -⟩ | ⟨rfl, -⟩ | ⟨rfl, -⟩ | ⟨rfl, -⟩ | ⟨rfl, -⟩ | ⟨rfl, -⟩ | ⟨rfl, -⟩ |
    ⟨rfl, -⟩ | ⟨rfl, -⟩
  · exact sets_entry fun _ => entries_set (done.entries.take 0) rfl rfl
  · exact sets_entry fun _ => entries_set (done.entries.take 1) rfl rfl
  · exact sets_entry fun _ => entries_set (done.entries.take 2) rfl rfl
  · exact sets_entry fun _ => entries_set (done.entries.take 3) rfl rfl
  · exact sets_entry fun _ => entries_set (done.entries.take 4) rfl rfl
  · exact sets_entry fun _ => entries_set (done.entries.take 5) rfl rfl
  · exact sets_entry fun _ => entries_set (done.entries.take 6) rfl rfl
  · exact sets_entry fun _ => entries_set (done.entries.take 7) rfl rfl
  · exact sets_entry fun _ => entries_set (done.entries.take 8) rfl rfl

/-- A part of what a theme writes is read as that part of the theme over the built-in one. -/
theorem exists_ofRaw_only (t : Theme) (chosen : String → Bool) :
    ∃ u, Theme.ofRaw (t.toRaw.only chosen) = .ok u ∧ ∀ kind, u.entry? kind =
      if chosen kind.tag then t.entry? kind else builtin.entry? kind := by
  have hs : ∀ name style, (name, style) ∈ t.entries → name ∈ themeFields ∧ ∀ done,
      Sets (fun t k => t.entries.lookup k) done name (some style)
        (setTheme tree done name style.toRaw) := by
    intro name style hm
    have hname : name ∈ t.entries.map Prod.fst := List.mem_map.2 ⟨_, hm, rfl⟩
    exact ⟨hname, setTheme_sets hm⟩
  have hread (raw : Raw) :
      Theme.ofRaw raw = treeRecord "Theme" themeFields (setTheme tree) builtin raw := rfl
  obtain ⟨u, hu, hget⟩ := treeRecord_written t.nodup_entries "Theme" hs chosen builtin
  rw [hread, toRaw]
  refine ⟨u, hu, fun kind => ?_⟩
  have hentry := hget kind.tag
  simp only [lookup_entries] at hentry
  rw [hentry]
  -- the kinds that have an entry are the same for all themes
  split
  · cases kind <;> rfl
  · rfl

/-- What a theme writes is read back as that theme. -/
theorem ofRaw_toRaw (t : Theme) : Theme.ofRaw t.toRaw = .ok t := by
  obtain ⟨u, hu, he⟩ := t.exists_ofRaw_only fun _ => true
  rw [Raw.only_true] at hu
  rw [hu, eq_of_entry? he]

/-- Whichever entries are kept of what a theme writes, they are read as the entries of that theme, and
every entry that is left out as the built-in one. So the whole is read back as the theme itself, as
every style is from what it writes. -/
theorem parts_read_back (t : Theme) :
    (∀ chosen : String → Bool, ∃ u, Theme.ofRaw (t.toRaw.only chosen) = .ok u ∧
      ∀ kind, u.entry? kind = if chosen kind.tag then t.entry? kind else builtin.entry? kind) ∧
      Theme.ofRaw t.toRaw = .ok t ∧ ∀ s : Style, Style.ofRaw s.toRaw = .ok s :=
  ⟨t.exists_ofRaw_only, t.ofRaw_toRaw, Style.ofRaw_toRaw⟩

end Theme

end TermMarkup
