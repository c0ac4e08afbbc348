import Mathlib
import DwarfLines.Main
import DwarfLines.Proofs.Header.Framing
import DwarfLines.Proofs.Info.ByteOrder

/-!
# A listing of one unit

A listing that was asked for one unit reads no other table. Two runs of it are compared by what
they print and how they end, and what they log is left out, so parts of two runs that are alike may
be put one after another. The units of an image and their offsets do not depend on the line
section at all, and a table is read off its own bytes; so whatever else the line section holds, and
be it malformed, a listing of one unit shows the same and ends alike.
-/

namespace DwarfLines
namespace Action

variable {α β : Type}

/-- Two actions that end alike and print the same, after the same was printed, whatever they log. -/
def Alike (first second : Action α) : Prop :=
  ∀ ⦃shown shown' : Transcript⦄, shown.output = shown'.output →
    (first.run.run shown).1 = (second.run.run shown').1 ∧
      (first.run.run shown).2.output = (second.run.run shown').2.output

theorem run_bind (first : Action α) (next : α → Action β) (shown : Transcript) :
    (first >>= next).run.run shown =
      match first.run.run shown with
      | (.ok a, later) => (next a).run.run later
      | (.error e, later) => (.error e, later) := by
  change (match first.run.run shown with
    | (result, later) => (ExceptT.bindCont next result).run later) = _
  rcases first.run.run shown with ⟨e | a, later⟩ <;> rfl

theorem Alike.bind {first second : Action α} {next next' : α → Action β} (h : first.Alike second)
    (hnext : ∀ a, (next a).Alike (next' a)) : (first >>= next).Alike (second >>= next') := by
  intro shown shown' hshown
  obtain ⟨hresult, houtput⟩ := h hshown
  rw [run_bind, run_bind]
  generalize first.run.run shown = ran at hresult houtput
  generalize second.run.run shown' = ran' at hresult houtput
  obtain ⟨result, later⟩ := ran
  obtain ⟨_, later'⟩ := ran'
  cases hresult
  cases result with
  | ok a => exact hnext a houtput
  | error e => exact ⟨rfl, houtput⟩

theorem alike_pure (a : α) : (pure a : Action α).Alike (pure a) :=
  fun _ _ hshown => ⟨rfl, hshown⟩

/-- Actions that come to having the same thing, and then what is alike for it. -/
theorem Alike.bind_known {first second : Action α} {a : α} {next next' : α → Action β}
    (hfirst : first.Alike (pure a)) (hsecond : second.Alike (pure a))
    (h : (next a).Alike (next' a)) : (first >>= next).Alike (second >>= next') := by
  intro shown shown' hshown
  obtain ⟨hresult, houtput⟩ := @hfirst shown shown' hshown
  obtain ⟨hresult', houtput'⟩ := @hsecond shown' shown' rfl
  rw [run_bind, run_bind]
  generalize first.run.run shown = ran at hresult houtput
  generalize second.run.run shown' = ran' at hresult' houtput'
  obtain ⟨_, later⟩ := ran
  obtain ⟨_, later'⟩ := ran'
  cases hresult
  cases hresult'
  exact h (houtput.trans houtput'.symm)

theorem alike_throw (e : CommandError) : (throw e : Action α).Alike (throw e) :=
  fun _ _ hshown => ⟨rfl, hshown⟩

theorem alike_print (lines : List String) : (print lines).Alike (print lines) :=
  fun _ _ hshown => ⟨rfl, congrArg (· ++ lines) hshown⟩

theorem alike_log (events events' : List Event) : (log events).Alike (log events') :=
  fun _ _ hshown => ⟨rfl, hshown⟩

theorem alike_require {ε : Type} (wrap : ε → CommandError) (result : Except ε α) :
    (require wrap result).Alike (require wrap result) := by
  cases result with
  | ok a => exact alike_pure a
  | error e => exact alike_throw (wrap e)

theorem alike_raise {ε : Type} (wrap : ε → CommandError) (fault : Option ε) :
    (raise wrap fault).Alike (raise wrap fault) := by
  cases fault with
  | none => exact alike_pure ()
  | some e => exact alike_throw (wrap e)

def Quiet (action : Action α) : Prop :=
  ∀ shown, (action.run.run shown).2.output = shown.output

theorem Quiet.bind {first : Action α} {next : α → Action β} (h : first.Quiet)
    (hnext : ∀ a, (next a).Quiet) : (first >>= next).Quiet := by
  intro shown
  have houtput := h shown
  rw [run_bind]
  generalize first.run.run shown = ran at houtput
  rcases ran with ⟨e | a, later⟩
  · exact houtput
  · exact (hnext a later).trans houtput

theorem quiet_pure (a : α) : (pure a : Action α).Quiet := fun _ => rfl

theorem quiet_log (events : List Event) : (log events).Quiet := fun _ => rfl

theorem quiet_require {ε : Type} (wrap : ε → CommandError) (result : Except ε α) :
    (require wrap result).Quiet := by
  cases result <;> exact fun _ => rfl

theorem quiet_raise {ε : Type} (wrap : ε → CommandError) (fault : Option ε) :
    (raise wrap fault).Quiet := by
  cases fault <;> exact fun _ => rfl

/-- Quiet actions that give something to work on, and then what is alike. -/
theorem Alike.perform_bind {first second : Action α} {a a' : α} {next next' : α → Action β}
    (h : (next a).Alike (next' a')) (hquiet : first.Quiet) (hquiet' : second.Quiet)
    (hfirst : first.perform.1 = .ok a) (hsecond : second.perform.1 = .ok a') :
    (first >>= next).perform.1 = (second >>= next').perform.1 ∧
      (first >>= next).perform.2.output = (second >>= next').perform.2.output := by
  have houtput := (hquiet {}).trans (hquiet' {}).symm
  unfold perform at hfirst hsecond ⊢
  rw [run_bind, run_bind]
  generalize first.run.run {} = ran at hfirst houtput
  generalize second.run.run {} = ran' at hsecond houtput
  obtain ⟨_, later⟩ := ran
  obtain ⟨_, later'⟩ := ran'
  cases hfirst
  cases hsecond
  exact h houtput

end Action

namespace LineTable

variable (table : LineTable)

theorem runPass_alike : table.runPass.Alike table.runPass :=
  (Action.alike_log _ _).bind fun _ => Action.alike_pure _

theorem list_alike (title : String) (listing : Listing) :
    (table.list title listing).Alike (table.list title listing) := by
  cases listing with
  | rows =>
    refine (Action.alike_print _).bind fun _ => table.runPass_alike.bind fun ran => ?_
    exact (Action.alike_print _).bind fun _ => Action.alike_raise _ _
  | files =>
    refine table.runPass_alike.bind fun ran => (Action.alike_raise _ _).bind fun _ => ?_
    refine (Action.alike_print _).bind fun _ => (Action.alike_print _).bind fun _ => ?_
    exact Action.alike_raise _ _
  | header => exact Action.alike_print _

end LineTable

namespace Image

theorem quiet_loadWith (reader : ObjectReader) (path : String)
    (contents : Except StorageError (List UInt8)) : (loadWith reader path contents).Quiet := by
  refine (Action.quiet_require _ _).bind fun bytes => (Action.quiet_require _ _).bind fun file => ?_
  refine (Action.quiet_log _).bind fun _ => (Action.quiet_raise _ _).bind fun _ => ?_
  dsimp only
  split_ifs
  · exact (Action.quiet_log _).bind fun _ => Action.quiet_pure _
  · exact Action.quiet_pure _

/-- The unit with an index has the given bytes in the line section, whatever stands around them. -/
def HoldsUnit (image : Image) (index : ℕ) (bytes : List UInt8) : Prop :=
  ∃ units unit before after, image.units = .ok units ∧ units[index]? = some unit ∧
    image.contents? .lines = some (before ++ bytes ++ after) ∧ before.length = unit.lineOffset

variable {image other : Image} {index : ℕ}

/-- Images that agree in all sections except for the lines have the same units, if they have any. -/
theorem info_eq_of_units {units units' : List LineUnit}
    (hsections : ∀ target, target ≠ .lines → image.contents? target = other.contents? target)
    (hunits : image.units = .ok units) (hunits' : other.units = .ok units') (hsome : units ≠ [])
    (hsome' : units' ≠ []) : image.info = other.info := by
  have hinfo : image.info.info = other.info.info :=
    congrArg (Option.getD · []) (hsections .info (by decide))
  have horder : image.order = other.order :=
    InfoSections.order_eq_of_units hinfo hunits hunits' hsome hsome'
  unfold info strings
  rw [horder, hsections .info (by decide), hsections .abbreviations (by decide),
    hsections .strings (by decide), hsections .lineStrings (by decide),
    hsections .supplementaryStrings (by decide), hsections .strOffsets (by decide)]

theorem selectUnits_alike {units : List LineUnit} {unit : LineUnit}
    (hunits : image.units = .ok units) (hunit : units[index]? = some unit) :
    (image.selectUnits (some index)).Alike (pure [unit]) := by
  have hdiscover (shown : Transcript) : image.discoverUnits.run.run shown =
      (.ok units, { shown with
        events := shown.events ++ [.discoveredUnits image.path units.length] }) := by
    unfold discoverUnits
    rw [hunits]
    rfl
  intro shown shown' hshown
  rw [selectUnits, Action.run_bind, hdiscover]
  dsimp only
  rw [Action.run_bind, hunit]
  exact ⟨rfl, hshown⟩

theorem readTable_alike {unit : LineUnit} (h : image.lineTable unit = other.lineTable unit) :
    (image.readTable unit).Alike (other.readTable unit) := by
  unfold readTable
  rw [h]
  exact (Action.alike_require _ _).bind fun table =>
    (Action.alike_log _ _).bind fun _ => Action.alike_pure table

/-- The table of a unit is read off its own bytes. -/
theorem lineTable_surrounded {bytes before after : List UInt8} {unit : LineUnit} {length : ℕ}
    {format : DwarfFormat} {last : Cursor}
    (hdeclares : Reader.initialLength image.order (Cursor.start bytes) =
      .ok ((length, format), last))
    (hexact : format.lengthSize + length = bytes.length)
    (hlines : image.contents? .lines = some (before ++ bytes ++ after))
    (hplace : before.length = unit.lineOffset) :
    image.lineTable unit =
      (LineTable.parse image.order bytes 0 unit.context).mapError .line := by
  rw [lineTable, hlines, ← hplace]
  exact congrArg (Except.mapError CommandError.line)
    (LineTable.parse_surrounded hdeclares hexact unit.context before after).1

end Image

namespace Command

/-- A listing of one unit depends on that unit alone, whatever object files a reader takes: two
images that have the same sections besides the lines, and in the lines the same bytes of the chosen
unit at its offset, are listed with the same output and the same success or failure. -/
theorem chosen_unit_listed_alike (reader : ObjectReader) {binary binary' : String}
    {contents contents' : Except StorageError (List UInt8)} {image other : Image} {index : ℕ}
    {bytes : List UInt8} {length : ℕ} {format : DwarfFormat} {last : Cursor}
    (hload : (Image.loadWith reader binary contents).perform.1 = .ok image)
    (hload' : (Image.loadWith reader binary' contents').perform.1 = .ok other)
    (hsections : ∀ target, target ≠ .lines → image.contents? target = other.contents? target)
    (hdeclares : Reader.initialLength image.order (Cursor.start bytes) =
      .ok ((length, format), last))
    (hexact : format.lengthSize + length = bytes.length)
    (hunit : image.HoldsUnit index bytes) (hunit' : other.HoldsUnit index bytes)
    (listing : Listing) :
    let ran := (runWith reader contents (.list listing binary (some index))).perform
    let ran' := (runWith reader contents' (.list listing binary' (some index))).perform
    ran.1 = ran'.1 ∧ ran.2.output = ran'.2.output := by
  obtain ⟨units, unit, before, after, hunits, hat, hlines, hplace⟩ := hunit
  obtain ⟨units', unit', before', after', hunits', hat', hlines', hplace'⟩ := hunit'
  have hsome : units ≠ [] := by
    rintro rfl
    cases hat
  have hsome' : units' ≠ [] := by
    rintro rfl
    cases hat'
  have hinfo := Image.info_eq_of_units hsections hunits hunits' hsome hsome'
  have horder : image.order = other.order := congrArg InfoSections.order hinfo
  have hsame : other.units = .ok units := by
    rw [← hunits, Image.units, Image.units, hinfo]
  obtain rfl : units = units' := by simpa using hsame.symm.trans hunits'
  obtain rfl : unit = unit' := by simpa using hat.symm.trans hat'
  have htable : image.lineTable unit = other.lineTable unit := by
    rw [Image.lineTable_surrounded hdeclares hexact hlines hplace]
    rw [horder] at hdeclares ⊢
    rw [Image.lineTable_surrounded hdeclares hexact hlines' hplace']
  refine Action.Alike.perform_bind ?_ (Image.quiet_loadWith _ _ _)
    (Image.quiet_loadWith _ _ _) hload hload'
  refine (Image.selectUnits_alike hunits hat).bind_known (Image.selectUnits_alike hsame hat) ?_
  refine Action.Alike.bind ?_ fun _ => Action.alike_pure _
  exact (Image.readTable_alike htable).bind fun table => table.list_alike unit.title listing

/-- Two units whose tables stand at 0 and 4 of a line section that begins with the given bytes. -/
def twoUnits (path : String) (front : List UInt8) : Image where
  path
  order := .little
  sections :=
    [(.abbreviations, [1, 17, 0, 16, 6, 0, 0, 0]),
     (.info, [12, 0, 0, 0, 2, 0, 0, 0, 0, 0, 4, 1, 0, 0, 0, 0,
        12, 0, 0, 0, 2, 0, 0, 0, 0, 0, 4, 1, 4, 0, 0, 0]),
     (.lines, front ++ [26, 0, 0, 0, 2, 0, 8, 0, 0, 0, 1, 1, 0, 1, 2, 0, 0, 0,
        0, 6, 3, 97, 0, 0, 0, 0, 1, 0, 1, 1])]

/-- A 32-bit file with the sections of such an image. -/
def fileOfTwoUnits (image : Image) : List UInt8 :=
  let sectionHeader (name kind offset size : ℕ) : List UInt8 :=
    [name, kind, 0, 0, offset, size, 0, 0, 0, 0].flatMap (ByteOrder.little.bytes 4)
  [0x7f, 0x45, 0x4c, 0x46, 1, 1, 1] ++ List.replicate 25 0 ++ [52] ++ List.replicate 13 0 ++
  [40, 0, 5, 0, 4, 0] ++
  sectionHeader 0 0 0 0 ++ sectionHeader 1 1 291 8 ++ sectionHeader 15 1 299 32 ++
  sectionHeader 27 1 331 34 ++ sectionHeader 0 3 252 39 ++
  0 :: terminatedBytes ".debug_abbrev" ++ terminatedBytes ".debug_info" ++
  terminatedBytes ".debug_line" ++ image.sections.flatMap (·.2)

theorem twoUnits_holds_second (path : String) {front : List UInt8} (hfront : front.length = 4) :
    (twoUnits path front).HoldsUnit 1 [26, 0, 0, 0, 2, 0, 8, 0, 0, 0, 1, 1, 0, 1, 2, 0, 0, 0,
      0, 6, 3, 97, 0, 0, 0, 0, 1, 0, 1, 1] := by
  have hunits : (twoUnits path front).units.map (fun units => units[1]?.map (·.lineOffset)) =
      .ok (some 4) := by
    change (twoUnits "" []).units.map _ = _
    decide +kernel
  obtain ⟨units, hfound, hsecond⟩ := exists_of_map_eq_ok hunits
  obtain ⟨unit, hunit, hoffset⟩ := Option.map_eq_some_iff.mp hsecond
  refine ⟨units, unit, front, [], hfound, hunit, ?_, hfront.trans hoffset.symm⟩
  rw [List.append_nil]
  rfl

/-- The rows of the second of two units are shown alike whether the table of the first claims to be
longer than the section or is of an unknown version. -/
theorem second_unit_listed_alike :
    let first := fileOfTwoUnits (twoUnits "a" [255, 255, 255, 255])
    let second := fileOfTwoUnits (twoUnits "b" [9, 0, 0, 0])
    let ran := (runWith ElfFile.reader (.ok first) (.list .rows "a" (some 1))).perform
    let ran' := (runWith ElfFile.reader (.ok second) (.list .rows "b" (some 1))).perform
    ran.1 = .ok () ∧ ran.1 = ran'.1 ∧ ran.2.output = ran'.2.output := by
  have hload : (Image.loadWith ElfFile.reader "a"
      (.ok (fileOfTwoUnits (twoUnits "a" [255, 255, 255, 255])))).perform.1 =
      .ok (twoUnits "a" [255, 255, 255, 255]) := by
    decide +kernel
  have hload' : (Image.loadWith ElfFile.reader "b"
      (.ok (fileOfTwoUnits (twoUnits "b" [9, 0, 0, 0])))).perform.1 =
      .ok (twoUnits "b" [9, 0, 0, 0]) := by
    decide +kernel
  refine ⟨by decide +kernel, chosen_unit_listed_alike ElfFile.reader hload hload'
    (fun target htarget => ?_) rfl rfl (twoUnits_holds_second _ rfl)
    (twoUnits_holds_second _ rfl) .rows⟩
  cases target with
  | lines => exact absurd rfl htarget
  | _ => rfl

end Command
end DwarfLines
