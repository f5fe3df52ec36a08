/-
A terminal that obeys the codes of fonts and colors. It takes its input character by character,
collects the codes of a sequence `ESC [ a ; b m` and applies them to its pen; other characters are
shown as the pen is. Text without an escape character leaves the terminal as it is, and a sequence
applies its codes in order, so a font that is switched on and off changes the pen field by field.
-/
import TermMarkup.Render.Marks
import Mathlib.Data.List.Basic

namespace TermMarkup

/-! ## Pens -/

/-- What a color is for. -/
inductive Channel where
  | fg
  | bg
  deriving DecidableEq, Repr

/-- The one of two values that belongs to the channel. -/
def Channel.select (channel : Channel) {α : Type} (fg bg : α) : α :=
  match channel with
  | .fg => fg
  | .bg => bg

/-- What characters are shown in. -/
structure Pen where
  fg : Color := .terminal
  bg : Color := .terminal
  bold : Bool := false
  underline : Underline := .off
  italics : Bool := false
  deriving DecidableEq, Repr

namespace Pen

/-- The pen after a code. -/
def apply (p : Pen) (code : Nat) : Pen :=
  match code with
  | 1 => { p with bold := true }
  | 22 => { p with bold := false }
  | 3 => { p with italics := true }
  | 23 => { p with italics := false }
  | 4 => { p with underline := .single }
  | 21 => { p with underline := .double }
  | 24 => { p with underline := .off }
  | _ =>
    match Color.all.find? (·.fgCode == code), Color.all.find? (·.bgCode == code) with
    | some color, _ => { p with fg := color }
    | none, some color => { p with bg := color }
    | none, none => p

def color (p : Pen) (channel : Channel) : Color :=
  channel.select p.fg p.bg

/-- The pen with a font switched on; what the font does not set stays. -/
def on (p : Pen) (f : Font) : Pen where
  fg := f.fg.getD p.fg
  bg := f.bg.getD p.bg
  bold := f.bold == some true || p.bold
  underline := if (f.underline.bind Underline.code?).isSome then f.underline.getD .off
    else p.underline
  italics := f.italics == some true || p.italics

/-- The pen with a font switched off; a channel that the font sets gets the color `back`. -/
def off (p : Pen) (f : Font) (back : Channel → Color) : Pen where
  fg := if f.fg.isSome then back .fg else p.fg
  bg := if f.bg.isSome then back .bg else p.bg
  bold := !(f.bold == some true) && p.bold
  underline := if (f.underline.bind Underline.code?).isSome then .off else p.underline
  italics := !(f.italics == some true) && p.italics

@[simp] theorem apply_fgCode (p : Pen) (c : Color) : p.apply c.fgCode = { p with fg := c } := by
  cases c <;> rfl

@[simp] theorem apply_bgCode (p : Pen) (c : Color) : p.apply c.bgCode = { p with bg := c } := by
  cases c <;> rfl

/-! ## Fonts -/

section

variable (p : Pen)

theorem foldl_fgCode (color : Option Color) :
    (color.map Color.fgCode).toList.foldl apply p = { p with fg := color.getD p.fg } := by
  cases color <;> simp

theorem foldl_bgCode (color : Option Color) :
    (color.map Color.bgCode).toList.foldl apply p = { p with bg := color.getD p.bg } := by
  cases color <;> simp

theorem foldl_bold (flag : Option Bool) :
    (if flag = some true then [Sgr.bold] else []).foldl apply p =
      { p with bold := flag == some true || p.bold } := by
  rcases flag with _ | (_ | _) <;> rfl

theorem foldl_italics (flag : Option Bool) :
    (if flag = some true then [Sgr.italics] else []).foldl apply p =
      { p with italics := flag == some true || p.italics } := by
  rcases flag with _ | (_ | _) <;> rfl

theorem foldl_underline (style : Option Underline) :
    (style.bind Underline.code?).toList.foldl apply p =
      { p with underline := if (style.bind Underline.code?).isSome then style.getD .off
          else p.underline } := by
  rcases style with _ | (_ | _ | _) <;> rfl

/-- The codes that switch a font on give the pen the font. -/
theorem foldl_fontOn (f : Font) : (Sgr.fontOn f).foldl apply p = p.on f := by
  simp only [Sgr.fontOn, List.foldl_append, foldl_fgCode, foldl_bgCode, foldl_bold,
    foldl_underline, foldl_italics]
  rfl

theorem foldl_boldOff (flag : Option Bool) :
    (if flag = some true then [Sgr.boldOff] else []).foldl apply p =
      { p with bold := !(flag == some true) && p.bold } := by
  rcases flag with _ | (_ | _) <;> rfl

theorem foldl_italicsOff (flag : Option Bool) :
    (if flag = some true then [Sgr.italicsOff] else []).foldl apply p =
      { p with italics := !(flag == some true) && p.italics } := by
  rcases flag with _ | (_ | _) <;> rfl

theorem foldl_underlineOff (style : Option Underline) :
    (if (style.bind Underline.code?).isSome then [Sgr.underlineOff] else []).foldl apply p =
      { p with underline := if (style.bind Underline.code?).isSome then .off else p.underline } := by
  rcases style with _ | (_ | _ | _) <;> rfl

theorem foldl_fgBack (set : Bool) (back : Color) :
    (if set then [back.fgCode] else []).foldl apply p =
      { p with fg := if set then back else p.fg } := by
  cases set <;> simp

theorem foldl_bgBack (set : Bool) (back : Color) :
    (if set then [back.bgCode] else []).foldl apply p =
      { p with bg := if set then back else p.bg } := by
  cases set <;> simp

/-- The codes that switch a font off take the font from the pen and leave no color of it. -/
theorem foldl_fontOff (f : Font) :
    (Sgr.fontOff f).foldl apply p = p.off f fun _ => .terminal := by
  have hfg : Sgr.fgDefault = Color.terminal.fgCode := rfl
  have hbg : Sgr.bgDefault = Color.terminal.bgCode := rfl
  simp only [Sgr.fontOff, List.foldl_append, hfg, hbg, foldl_fgBack, foldl_bgBack, foldl_boldOff,
    foldl_underlineOff, foldl_italicsOff]
  rfl

end

end Pen

/-! ## Terminals -/

/-- The character that starts a sequence of codes. -/
def esc : Char := '\x1b'

/-- How far a terminal is in a sequence of codes. -/
inductive Scan where
  | plain
  | escape
  /-- In the parameters: the codes read so far and the value of the one being read. -/
  | codes (done : List Nat) (current : Nat)
  deriving DecidableEq, Repr

structure Terminal where
  pen : Pen := {}
  scan : Scan := .plain
  deriving DecidableEq, Repr

namespace Terminal

/-- The terminal after one more character. -/
def feed (t : Terminal) (c : Char) : Terminal :=
  match t.scan with
  | .plain => if c = esc then { t with scan := .escape } else t
  | .escape => if c = '[' then { t with scan := .codes [] 0 } else { t with scan := .plain }
  | .codes done current =>
    if c.isDigit then { t with scan := .codes done (10 * current + (c.toNat - '0'.toNat)) }
    else if c = ';' then { t with scan := .codes (done ++ [current]) 0 }
    else if c = 'm' then ⟨(done ++ [current]).foldl Pen.apply t.pen, .plain⟩
    else { t with scan := .plain }

/-- The terminal after a text. -/
def write (t : Terminal) (text : String) : Terminal :=
  text.toList.foldl feed t

@[simp] theorem write_empty (t : Terminal) : t.write "" = t := rfl

@[simp] theorem write_append (t : Terminal) (a b : String) :
    t.write (a ++ b) = (t.write a).write b := by
  simp [write]

/-- Text without an escape character is shown and changes nothing. -/
theorem write_of_notMem (p : Pen) {text : String} (h : esc ∉ text.toList) :
    write ⟨p, .plain⟩ text = ⟨p, .plain⟩ := by
  unfold write
  generalize text.toList = cs at h
  induction cs with
  | nil => rfl
  | cons c cs ih =>
    obtain ⟨hc, hcs⟩ := not_or.1 (mt List.mem_cons.2 h)
    have hstep : feed ⟨p, .plain⟩ c = ⟨p, .plain⟩ := if_neg (Ne.symm hc)
    rw [List.foldl_cons, hstep, ih hcs]

/-! ## Sequences -/

theorem foldl_feed_digits (p : Pen) (done : List Nat) (current : Nat) {ds : List Char}
    (h : ∀ d ∈ ds, d.isDigit = true) :
    ds.foldl feed ⟨p, .codes done current⟩ = ⟨p, .codes done (Nat.ofDigitChars 10 ds current)⟩ := by
  rw [Nat.ofDigitChars_eq_foldl]
  induction ds generalizing current with
  | nil => rfl
  | cons d ds ih =>
    obtain ⟨hd, hds⟩ := List.forall_mem_cons.1 h
    have hstep : feed ⟨p, .codes done current⟩ d =
        ⟨p, .codes done (10 * current + (d.toNat - '0'.toNat))⟩ := if_pos hd
    rw [List.foldl_cons, List.foldl_cons, hstep, ih _ hds]

theorem write_repr (p : Pen) (done : List Nat) (code : Nat) :
    write ⟨p, .codes done 0⟩ (Nat.repr code) = ⟨p, .codes done code⟩ := by
  unfold write
  rw [Nat.toList_repr, foldl_feed_digits p done 0, Nat.ofDigitChars_ten_toDigits]
  intro d hd
  exact Nat.isDigit_of_mem_toDigits (by omega) (by omega) hd

/-- The parameters of a sequence are read one by one, and its end applies them. -/
theorem write_parameters (p : Pen) (done : List Nat) (code : Nat) (codes : List Nat) :
    write ⟨p, .codes done 0⟩ (String.intercalate ";" ((code :: codes).map Nat.repr) ++ "m") =
      ⟨(done ++ code :: codes).foldl Pen.apply p, .plain⟩ := by
  induction codes generalizing done code with
  | nil =>
    have hone : String.intercalate ";" ([code].map Nat.repr) = Nat.repr code := rfl
    rw [hone, write_append, write_repr]
    rfl
  | cons next codes ih =>
    have hne : (next :: codes).map Nat.repr ≠ [] := List.cons_ne_nil _ _
    have hnext : write ⟨p, .codes done code⟩ ";" = ⟨p, .codes (done ++ [code]) 0⟩ := rfl
    rw [List.map_cons, String.intercalate_cons_of_ne_nil hne, String.append_assoc,
      String.append_assoc, write_append, write_repr, write_append, hnext, ih]
    simp

/-- A sequence applies its codes in order. -/
theorem write_sequence (p : Pen) (codes : List Nat) :
    write ⟨p, .plain⟩ (Sgr.sequence codes) = ⟨codes.foldl Pen.apply p, .plain⟩ := by
  cases codes with
  | nil => rfl
  | cons code codes =>
    have hstart : write ⟨p, .plain⟩ "\x1b[" = ⟨p, .codes [] 0⟩ := rfl
    unfold Sgr.sequence
    rw [String.append_assoc, write_append, hstart, write_parameters, List.nil_append]

end Terminal

end TermMarkup
