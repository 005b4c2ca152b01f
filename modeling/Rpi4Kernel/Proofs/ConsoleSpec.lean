/-
Module: Rpi4Kernel.Proofs.ConsoleSpec
Layer: Proofs
Purpose: What a format means, and when `print` and `print_no_lock` keep to it. A format is read as a
  sequence of ordinary characters and conversions; the scanner follows this reading to the terminator
  whenever there is one, and runs past the terminator when the format ends inside a conversion.
Trusted boundary: none (fully proved)
Main exports: Item, Reads, render, Formats, printLoop_of_reads, printLoop_of_not_reads,
  print_formats_iff
-/
import Rpi4Kernel.Drivers.Console
import Rpi4Kernel.Proofs.ItoaSpec

namespace Rpi4Kernel.Drivers

open Rpi4Kernel.Stdlib

/-! ### Formats -/

/-- The optional 0 of a conversion, and what follows. -/
def takeFlag : List Char → Bool × List Char
  | '0' :: s => (true, s)
  | s => (false, s)

/-- The optional digit of a conversion, and what follows. -/
def takeWidth : List Char → Nat × List Char
  | [] => (0, [])
  | c :: s => if c.isDigit then (c.toNat - '0'.toNat, s) else (0, c :: s)

/-- The conversion at the start of `s`, which follows a percent sign; there is none when `s` ends
    first. -/
def takeConversion (s : List Char) : Option (Conversion × List Char) :=
  match (takeWidth (takeFlag s).2).2 with
  | [] => none
  | kind :: rest => some (⟨(takeFlag s).1, (takeWidth (takeFlag s).2).1, kind⟩, rest)

/-- A part of a format. -/
inductive Item where
  | ordinary (c : Char)
  | conversion (conversion : Conversion)
deriving DecidableEq, Repr

/-- The format `s` is the sequence of the items. -/
inductive Reads : List Char → List Item → Prop
  | done : Reads [] []
  | ordinary {c : Char} {s : List Char} {items : List Item} (plain : c ≠ '%') (rest : Reads s items) :
      Reads (c :: s) (.ordinary c :: items)
  | conversion {s s' : List Char} {conversion : Conversion} {items : List Item}
      (take : takeConversion s = some (conversion, s')) (rest : Reads s' items) :
      Reads ('%' :: s) (.conversion conversion :: items)

/-- The text of a conversion for its argument: a numeral or a string, padded on the left, or the
    argument as a character. -/
def conversionText (strings : Slot → CString) (conversion : Conversion) (arg : Slot) : List Char :=
  let padded := List.leftpad conversion.pad (if conversion.pad0 then '0' else ' ')
  if conversion.kind = 'd' ∨ conversion.kind = 'u' ∨ conversion.kind = 'x' then
    padded (numeral conversion.kind arg)
  else if conversion.kind = 's' then
    padded (if arg = 0 then ['(', 'n', 'u', 'l', 'l', ')'] else (strings arg).val)
  else [Char.ofNat (arg.toNat % 256)]

/-- The text of a format, from argument `i` on. -/
def render (strings : Slot → CString) (args : Nat → Slot) : List Item → Nat → List Char
  | [], _ => []
  | .ordinary c :: items, i => c :: render strings args items i
  | .conversion conversion :: items, i =>
    conversionText strings conversion (args i) ++ render strings args items (i + 1)

/-- The call stays within the format and writes its text, if there is a console to write to. -/
def Formats (console : ConsoleState) (strings : Slot → CString) (format : CString)
    (args : Nat → Slot) (call : Option (List ConsoleEffect)) : Prop :=
  ∃ effects, call = some effects ∧ ∀ items, Reads format.val items →
    written effects = if console.kernelConsole then render strings args items 0 else []

/-! ### The scanner -/

theorem isDigit_iff (c : Char) : c.isDigit = true ↔ '0' ≤ c ∧ c ≤ '9' := by
  simp [Char.isDigit, Char.le_def]

/-- What `*format++` yields at the start of `s`. -/
def readHead : List Char → Char × Option (List Char)
  | [] => (nul, none)
  | c :: s => (c, some s)

theorem nextChar_some (s : List Char) : nextChar (some s) = some (readHead s) := by
  cases s <;> rfl

theorem scanFlag_spec (s : List Char) :
    scanFlag (readHead s) = some ((takeFlag s).1, readHead (takeFlag s).2) := by
  cases s with
  | nil => rfl
  | cons c s =>
      by_cases hc : c = '0'
      · subst hc
        simp [scanFlag, readHead, takeFlag, nextChar_some]
      · have hplain : takeFlag (c :: s) = (false, c :: s) := by
          rw [takeFlag]
          exact fun _ h => hc (List.cons.inj h).1
        rw [scanFlag, readHead, if_neg hc, hplain, readHead]

theorem scanWidth_spec (s : List Char) :
    scanWidth (readHead s) = some ((takeWidth s).1, readHead (takeWidth s).2) := by
  cases s with
  | nil => rfl
  | cons c s =>
      by_cases hc : c.isDigit = true
      · rw [scanWidth, readHead, if_pos ((isDigit_iff c).mp hc), takeWidth, if_pos hc, nextChar_some]
        rfl
      · rw [scanWidth, readHead, if_neg fun h => hc ((isDigit_iff c).mpr h), takeWidth, if_neg hc,
          readHead]

/-- The scanner takes the character behind the flag and the width, the terminator if the format ends. -/
theorem scanConversion_eq (s : List Char) : scanConversion (some s) =
    some (⟨(takeFlag s).1, (takeWidth (takeFlag s).2).1, (readHead (takeWidth (takeFlag s).2).2).1⟩,
      (readHead (takeWidth (takeFlag s).2).2).2) := by
  simp only [scanConversion, nextChar_some, scanFlag_spec, scanWidth_spec, Option.bind_eq_bind,
    Option.bind_some, Option.pure_def]

theorem scanConversion_of_take {s s' : List Char} {conversion : Conversion}
    (h : takeConversion s = some (conversion, s')) :
    scanConversion (some s) = some (conversion, some s') := by
  rw [takeConversion] at h
  split at h
  case h_1 => cases h
  case h_2 kind rest hrest =>
    cases h
    rw [scanConversion_eq, hrest]
    rfl

/-- When the format ends inside a conversion, the format pointer is behind the terminator afterwards. -/
theorem scanConversion_of_take_none {s : List Char} (h : takeConversion s = none) :
    ∃ conversion, scanConversion (some s) = some (conversion, none) := by
  rw [takeConversion] at h
  split at h
  case h_1 hrest =>
    rw [scanConversion_eq, hrest]
    exact ⟨_, rfl⟩
  case h_2 => cases h

theorem takeFlag_suffix (s : List Char) : (takeFlag s).2 <:+ s := by
  unfold takeFlag
  split
  · exact List.suffix_cons _ _
  · exact List.suffix_refl _

theorem takeWidth_suffix (s : List Char) : (takeWidth s).2 <:+ s := by
  cases s with
  | nil => exact List.suffix_refl _
  | cons c s =>
      rw [takeWidth]
      split
      · exact List.suffix_cons _ _
      · exact List.suffix_refl _

/-- A conversion leaves a rest of the format. -/
theorem takeConversion_suffix {s s' : List Char} {conversion : Conversion}
    (h : takeConversion s = some (conversion, s')) : s' <:+ s := by
  have hflag := takeFlag_suffix s
  have hwidth := takeWidth_suffix (takeFlag s).2
  rw [takeConversion] at h
  split at h
  case h_1 => cases h
  case h_2 kind rest hrest =>
    cases h
    rw [hrest] at hwidth
    exact ((List.suffix_cons _ _).trans hwidth).trans hflag

/-! ### Conversions -/

theorem written_append (effects effects' : List ConsoleEffect) :
    written (effects ++ effects') = written effects ++ written effects' :=
  List.filterMap_append

theorem written_padLoop (pad0 : Bool) {pad fuel p2 : Nat} (hfuel : pad - p2 ≤ fuel) :
    written (padLoop pad0 pad fuel p2) = List.replicate (pad - p2) (if pad0 then '0' else ' ') := by
  induction fuel generalizing p2 with
  | zero =>
      rw [Nat.le_zero.mp hfuel]
      rfl
  | succ fuel ih =>
      rw [padLoop]
      split
      case isTrue hlt =>
        have hrest : pad - p2 = pad - (p2 + 1) + 1 := by omega
        rw [hrest, List.replicate_succ, ← ih (by omega)]
        rfl
      case isFalse hle =>
        rw [Nat.sub_eq_zero_of_le (not_lt.mp hle)]
        rfl

theorem written_writeString (conversion : Conversion) (p : List Char) :
    written (writeString conversion p) =
      List.leftpad conversion.pad (if conversion.pad0 then '0' else ' ') p := by
  have hchars : written (p.map .write) = p := by
    induction p with
    | nil => rfl
    | cons c p ih => exact congrArg (c :: ·) ih
  rw [writeString, written_append, written_padLoop _ (Nat.sub_le _ _), hchars, List.leftpad]

/-- A conversion writes its text, and `buf` stays as long as it is. -/
theorem convert_spec (strings : Slot → CString) (conversion : Conversion) (arg : Slot)
    (buf : Buffer 40) : ∃ (effects : List ConsoleEffect) (after : Buffer 40),
      convert strings conversion arg buf.val = some (effects, after.val) ∧
        written effects = conversionText strings conversion arg := by
  unfold convert conversionText
  by_cases hnumber : conversion.kind = 'd' ∨ conversion.kind = 'u' ∨ conversion.kind = 'x'
  · obtain ⟨after, hcall, hstring⟩ := itoa1_buffer buf conversion.kind arg
    refine ⟨writeString conversion (numeral conversion.kind arg), after, ?_, ?_⟩
    · rw [if_pos hnumber, hcall, Option.bind_eq_bind, Option.bind_some, hstring]
      rfl
    · rw [if_pos hnumber]
      exact written_writeString _ _
  · rw [if_neg hnumber, if_neg hnumber]
    split
    · exact ⟨_, buf, rfl, written_writeString _ _⟩
    · exact ⟨_, buf, rfl, rfl⟩

/-! ### The loop -/

section Loop

variable (strings : Slot → CString) (args : Nat → Slot) (i : Nat) {s : List Char} {fuel : Nat}

/-- A format that can be read is written to its end. -/
theorem printLoop_of_reads {items : List Item} (h : Reads s items) (hs : nul ∉ s)
    (hfuel : s.length < fuel) (buf : Buffer 40) : ∃ effects,
      printLoop strings args fuel (some s) i buf.val = some effects ∧
        written effects = render strings args items i := by
  induction h generalizing fuel i buf with
  | done =>
      obtain ⟨fuel, rfl⟩ := Nat.exists_eq_succ_of_ne_zero (Nat.ne_of_gt hfuel)
      exact ⟨[], rfl, rfl⟩
  | @ordinary c s items hplain _ ih =>
      obtain ⟨fuel, rfl⟩ := Nat.exists_eq_succ_of_ne_zero (Nat.ne_of_gt (Nat.zero_lt_of_lt hfuel))
      obtain ⟨hc, hrest⟩ := List.ne_and_not_mem_of_not_mem_cons hs
      obtain ⟨effects, hloop, hwritten⟩ := ih i hrest (Nat.lt_of_succ_lt_succ hfuel) buf
      refine ⟨.write c :: effects, ?_, congrArg (c :: ·) hwritten⟩
      simp only [printLoop, nextChar, Option.bind_eq_bind, Option.bind_some, if_neg (Ne.symm hc),
        if_pos hplain, hloop, Option.map_some]
  | @conversion s s' conv items htake _ ih =>
      obtain ⟨fuel, rfl⟩ := Nat.exists_eq_succ_of_ne_zero (Nat.ne_of_gt (Nat.zero_lt_of_lt hfuel))
      have hsuffix := takeConversion_suffix htake
      obtain ⟨effects, after, hconvert, htext⟩ := convert_spec strings conv (args i) buf
      obtain ⟨rest, hloop, hwritten⟩ := ih (i + 1)
        (fun hmem => hs (List.mem_cons_of_mem _ (hsuffix.subset hmem)))
        (lt_of_le_of_lt hsuffix.length_le (Nat.lt_of_succ_lt_succ hfuel)) after
      refine ⟨effects ++ rest, ?_, ?_⟩
      · simp only [printLoop, nextChar, Option.bind_eq_bind, Option.bind_some,
          scanConversion_of_take htake, hconvert, hloop, Option.map_some]
        rfl
      · rw [written_append, htext, hwritten, render]

/-- A format that cannot be read ends inside a conversion, and the loop goes on behind the
    terminator. -/
theorem printLoop_of_not_reads (h : ¬ ∃ items, Reads s items) (hs : nul ∉ s) (buf : Buffer 40) :
    printLoop strings args fuel (some s) i buf.val = none := by
  induction fuel generalizing s i buf with
  | zero => rfl
  | succ fuel ih =>
      cases s with
      | nil => exact absurd ⟨[], .done⟩ h
      | cons c s =>
          obtain ⟨hc, hrest⟩ := List.ne_and_not_mem_of_not_mem_cons hs
          simp only [printLoop, nextChar, Option.bind_eq_bind, Option.bind_some, if_neg (Ne.symm hc)]
          by_cases hplain : c = '%'
          · subst hplain
            rw [if_neg (not_not_intro rfl)]
            cases htake : takeConversion s with
            | none =>
                obtain ⟨conv, hscan⟩ := scanConversion_of_take_none htake
                obtain ⟨effects, after, hconvert, -⟩ := convert_spec strings conv (args i) buf
                have hbehind : printLoop strings args fuel none (i + 1) after.val = none := by
                  cases fuel <;> rfl
                simp only [hscan, hconvert, hbehind, Option.bind_some, Option.map_none]
            | some take =>
                obtain ⟨conv, s'⟩ := take
                obtain ⟨effects, after, hconvert, -⟩ := convert_spec strings conv (args i) buf
                have hloop := ih (i + 1) (fun ⟨items, hitems⟩ => h ⟨_, .conversion htake hitems⟩)
                  (fun hmem => hrest ((takeConversion_suffix htake).subset hmem)) after
                simp only [scanConversion_of_take htake, hconvert, hloop, Option.bind_some,
                  Option.map_none]
          · have hloop := ih i (fun ⟨items, hitems⟩ => h ⟨_, .ordinary hplain hitems⟩) hrest buf
            rw [if_pos hplain, hloop, Option.map_none]

end Loop

/-! ### The functions -/

section Functions

variable (console : ConsoleState) (strings : Slot → CString) (format : CString) (args : Nat → Slot)
  (buf : Buffer 40)

/-- The two functions write the same characters. -/
theorem print_written : (print console strings format args buf).map written =
    (printNoLock console strings format args buf).map written := by
  rw [print, printNoLock]
  split
  · rw [Option.map_map]
    congr 1
    funext effects
    simp only [Function.comp_apply, written_append]
    cases console.lock <;> simp [written]
  · rfl

/-- `print_no_lock` keeps to the format exactly when there is no console or the format can be read. -/
theorem printNoLock_formats_iff :
    Formats console strings format args (printNoLock console strings format args buf) ↔
      (console.kernelConsole = false ∨ ∃ items, Reads format.val items) := by
  rw [Formats, printNoLock]
  cases hconsole : console.kernelConsole with
  | false => simp [written]
  | true =>
      simp only [if_true, Bool.true_eq_false, false_or]
      constructor
      · rintro ⟨effects, hcall, -⟩
        by_contra hnot
        rw [printLoop_of_not_reads strings args 0 hnot format.property] at hcall
        cases hcall
      · rintro ⟨items, hitems⟩
        obtain ⟨effects, hcall, -⟩ :=
          printLoop_of_reads strings args 0 hitems format.property (Nat.lt_succ_self _) buf
        refine ⟨effects, hcall, fun items' hitems' => ?_⟩
        obtain ⟨effects', hcall', hwritten⟩ :=
          printLoop_of_reads strings args 0 hitems' format.property (Nat.lt_succ_self _) buf
        rw [hcall] at hcall'
        cases hcall'
        exact hwritten

/-- Whether a call keeps to the format shows in the characters it writes. -/
theorem formats_congr {call call' : Option (List ConsoleEffect)}
    (h : call.map written = call'.map written) :
    Formats console strings format args call ↔ Formats console strings format args call' := by
  have hone : ∀ {call call' : Option (List ConsoleEffect)}, call.map written = call'.map written →
      Formats console strings format args call → Formats console strings format args call' := by
    rintro _ call' h ⟨effects, rfl, hwritten⟩
    obtain ⟨effects', hcall', heq⟩ := Option.map_eq_some_iff.mp h.symm
    exact ⟨effects', hcall', fun items hitems => heq.trans (hwritten items hitems)⟩
  exact ⟨hone h, hone h.symm⟩

/-- `print` and `print_no_lock` stay within the format and write its text, the same one, exactly when
    there is no console or the format does not end inside a conversion. -/
theorem print_formats_iff :
    (Formats console strings format args (printNoLock console strings format args buf) ∧
      Formats console strings format args (print console strings format args buf) ∧
      (print console strings format args buf).map written =
        (printNoLock console strings format args buf).map written) ↔
      (console.kernelConsole = false ∨ ∃ items, Reads format.val items) := by
  have hsame := print_written console strings format args buf
  rw [formats_congr console strings format args hsame, printNoLock_formats_iff, and_iff_left hsame,
    and_self]

end Functions

/-- With the format `%`, both functions read behind the terminator. -/
theorem print_percent_overruns :
    print ⟨true, true⟩ (fun _ => ⟨[], by decide⟩) ⟨['%'], by decide⟩ (fun _ => 0)
      ⟨List.replicate 40 nul, rfl⟩ = none ∧
    ¬ Formats ⟨true, true⟩ (fun _ => ⟨[], by decide⟩) ⟨['%'], by decide⟩ (fun _ => 0)
      (print ⟨true, true⟩ (fun _ => ⟨[], by decide⟩) ⟨['%'], by decide⟩ (fun _ => 0)
        ⟨List.replicate 40 nul, rfl⟩) := by
  have hcall : print ⟨true, true⟩ (fun _ => ⟨[], by decide⟩) ⟨['%'], by decide⟩ (fun _ => 0)
      ⟨List.replicate 40 nul, rfl⟩ = none := by decide +kernel
  refine ⟨hcall, ?_⟩
  rw [hcall]
  rintro ⟨effects, h, -⟩
  cases h

end Rpi4Kernel.Drivers
