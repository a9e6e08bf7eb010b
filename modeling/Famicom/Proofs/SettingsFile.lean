import Famicom.Proofs.JsonDraft
import Famicom.Settings.Json
import Mathlib.Tactic.SplitIfs

/-!
What a settings file says. Fields stand in any order, in an object that is written in any way, and others
among them do not matter:

    { "sample_bits": 8, "author": {"age": [41, null]} ,"filter":"none" }
      │                 passed over                     │
      ▼                                                 ▼
      8         44100, 60, 63, true, true, 3 by default    none

The result is then validated (`Valid`). The file that is printed of settings is one such way to write all
fields, so reading undoes printing.

The library that reads and writes the texts is left open. All that is used of it is what such libraries are
documented to do, one law for each thing (`Codec.Documented`); the library of the program keeps them
(`json_documented`).
-/

namespace Famicom

open Json

namespace Settings

/-! ### Validation -/

/-- Settings that a machine can run with. -/
structure Valid (s : Settings) : Prop where
  bits : s.sampleBits = 8 ∨ s.sampleBits = 16
  sampleRate : s.sampleRate ≠ 0
  refreshRate : s.refreshRate ≠ 0
  order : s.refreshRate ≤ s.sampleRate

theorem validate_of_valid {s : Settings} (h : s.Valid) : s.validate = .ok s := by
  rw [validate, if_neg, if_neg, if_neg]
  · exact UInt32.not_lt.mpr h.order
  · exact not_or.mpr ⟨h.sampleRate, h.refreshRate⟩
  · rintro ⟨h8, h16⟩
    exact h.bits.elim h8 h16

theorem valid_of_validate {s t : Settings} (h : s.validate = .ok t) : s.Valid := by
  unfold validate at h
  split_ifs at h with hbits hrates horder
  refine ⟨?_, fun hs => hrates (Or.inl hs), fun hr => hrates (Or.inr hr), UInt32.not_lt.mp horder⟩
  by_contra hno
  exact hbits (not_or.mp hno)

theorem validate_of_not_valid {s : Settings} (h : ¬ s.Valid) : ∃ e, s.validate = .error e := by
  cases hs : s.validate with
  | error e => exact ⟨e, rfl⟩
  | ok t => exact absurd (valid_of_validate hs) h

/-! ### Fields -/

/-- Settings with one field of others. -/
def copy (t s : Settings) : Field → Settings
  | .sampleRate => { t with sampleRate := s.sampleRate }
  | .sampleBits => { t with sampleBits := s.sampleBits }
  | .refreshRate => { t with refreshRate := s.refreshRate }
  | .filter => { t with filter := s.filter }
  | .channelMask => { t with channelMask := s.channelMask }
  | .drawSprites => { t with drawSprites := s.drawSprites }
  | .autoFrameSkip => { t with autoFrameSkip := s.autoFrameSkip }
  | .devices => { t with devices := s.devices }

/-- Settings with several fields of others, in whatever order. -/
def copyAll (t s : Settings) (fs : List Field) : Settings :=
  let owner (f : Field) : Settings := if f ∈ fs then s else t
  { sampleRate := (owner .sampleRate).sampleRate
    sampleBits := (owner .sampleBits).sampleBits
    refreshRate := (owner .refreshRate).refreshRate
    filter := (owner .filter).filter
    channelMask := (owner .channelMask).channelMask
    drawSprites := (owner .drawSprites).drawSprites
    autoFrameSkip := (owner .autoFrameSkip).autoFrameSkip
    devices := (owner .devices).devices }

theorem copyAll_copy (t s : Settings) (f : Field) (fs : List Field) :
    (t.copyAll s fs).copy s f = t.copyAll s (f :: fs) := by
  have howner : ∀ g : Field, (if g ∈ f :: fs then s else t) =
      if g = f then s else if g ∈ fs then s else t := by
    intro g
    simp only [List.mem_cons]
    split_ifs <;> simp_all
  simp only [copyAll, howner]
  cases f <;> simp only [copy, reduceCtorEq, if_false, if_true]

theorem copyAll_fields (t s : Settings) : t.copyAll s fields = s := rfl

/-! ### The library -/

/-- What a library is documented to do. -/
structure Codec.Documented (codec : Codec) : Prop where
  /-- A text is read by the value that it spells, whatever the blanks between its tokens and the escapes in its
  strings. -/
  spelled (before : Blanks) (file : Draft) (after : Blanks) :
    codec.read? (String.ofList (before.val ++ (file.text ++ after.val))) = codec.record? file.value
  /-- What an object is silent about has its default. -/
  silent : codec.record? (.object []) = some {}
  /-- Members with unknown names are passed over. -/
  unknown {name : String} (value : Json) (members : List (Option String × Json)) (h : ∀ f : Field, f.name ≠ name) :
    codec.record? (.object ((some name, value) :: members)) = codec.record? (.object members)
  /-- A member with the name of a field sets it, if it is the only one with this name. -/
  known (f : Field) (value : Json) {members : List (Option String × Json)} (h : ∀ m ∈ members, m.1 ≠ some f.name) :
    codec.record? (.object ((some f.name, value) :: members)) =
      (codec.record? (.object members)).bind fun s => codec.put? s f value
  /-- A number that fits into its type is itself. -/
  word {n : Nat} (h : n ≤ 0xFFFFFFFF) : codec.word? (.ofNat n) = some (.ofNat n)
  byte {n : Nat} (h : n ≤ 0xFF) : codec.byte? (.ofNat n) = some (.ofNat n)
  bool (value : Bool) : codec.bool? (.bool value) = some value
  /-- A filter goes by its name. -/
  filter (f : Filter) : codec.filter? (.string (some f.name)) = some f
  /-- A file has a line for each field, in order, indented by two blanks. -/
  layout (s : Settings) : codec.write s = printObject (fields.map fun f => (f.name, s.get f))

variable {codec : Codec}

/-- What a field says is read as its value. -/
theorem Codec.Documented.put?_get (hc : codec.Documented) (t s : Settings) (f : Field) :
    codec.put? t f (s.get f) = some (t.copy s f) := by
  have hbyte : ∀ b : UInt8, codec.byte? (.ofNat b.toNat) = some b := fun b => by
    rw [hc.byte (Nat.le_of_lt_succ b.toNat_lt), UInt8.ofNat_toNat]
  have hword : ∀ w : UInt32, codec.word? (.ofNat w.toNat) = some w := fun w => by
    rw [hc.word (Nat.le_of_lt_succ w.toNat_lt), UInt32.ofNat_toNat]
  cases f <;> simp only [Readers.put?, get, hbyte, hword, hc.filter, hc.bool, Option.map_some, copy]

/-! ### Objects -/

/-- The members of an object are some fields of settings in this order, and others among them. -/
inductive Lists (s : Settings) : List Field → List (Option String × Json) → Prop where
  | nil : Lists s [] []
  | field (f : Field) {fs : List Field} {members : List (Option String × Json)} (h : Lists s fs members) :
    Lists s (f :: fs) ((some f.name, s.get f) :: members)
  | other {name : String} (value : Json) {fs : List Field} {members : List (Option String × Json)}
    (hname : ∀ f : Field, f.name ≠ name) (h : Lists s fs members) : Lists s fs ((some name, value) :: members)

theorem name_injective {f g : Field} (h : f.name = g.name) : f = g := by
  revert h
  cases f <;> cases g <;> decide

/-- A field that is not listed is named by no member. -/
theorem Lists.unnamed {s : Settings} {fs : List Field} {members : List (Option String × Json)}
    (h : Lists s fs members) {f : Field} (hf : f ∉ fs) : ∀ m ∈ members, m.1 ≠ some f.name := by
  induction h with
  | nil => exact fun m hm => absurd hm List.not_mem_nil
  | field g h ih =>
    obtain ⟨hne, hrest⟩ := not_or.mp fun hmem => hf (List.mem_cons.mpr hmem)
    exact List.forall_mem_cons.mpr ⟨fun heq => hne (name_injective (Option.some.inj heq)).symm, ih hrest⟩
  | other value hname h ih =>
    exact List.forall_mem_cons.mpr ⟨fun heq => hname f (Option.some.inj heq).symm, ih hf⟩

/-- Listed fields are taken over, the others have their defaults. -/
theorem Codec.Documented.record?_lists (hc : codec.Documented) {s : Settings} {fs : List Field}
    {members : List (Option String × Json)} (h : Lists s fs members) (hnodup : fs.Nodup) :
    codec.record? (.object members) = some (({} : Settings).copyAll s fs) := by
  induction h with
  | nil => exact hc.silent
  | field f h ih =>
    obtain ⟨hnew, hnodup⟩ := List.nodup_cons.mp hnodup
    rw [hc.known f _ (h.unnamed hnew), ih hnodup, Option.bind_some, hc.put?_get, copyAll_copy]
  | other value hname h ih => rw [hc.unknown value _ hname, ih hnodup]

/-- A file is read as the fields it lists, with the defaults elsewhere, and then validated. -/
theorem Codec.Documented.parse_draft (hc : codec.Documented) {s : Settings} {fs : List Field}
    {members : List (Option String × Json)} (h : Lists s fs members) (hnodup : fs.Nodup) (before : Blanks)
    {file : Draft} (hfile : file.value = .object members) (after : Blanks) :
    parseWith codec (String.ofList (before.val ++ (file.text ++ after.val))) =
      (({} : Settings).copyAll s fs).validate := by
  rw [parseWith, hc.spelled, hfile, hc.record?_lists h hnodup]

/-! ### Printed files -/

theorem lists_map (s : Settings) (fs : List Field) : Lists s fs (fs.map fun f => (some f.name, s.get f)) := by
  induction fs with
  | nil => exact .nil
  | cons f fs ih => exact .field f ih

theorem printable_get (s : Settings) (f : Field) : PrintableMember (f.name, s.get f) where
  name := by
    show f.name.toList.all isPlain = true
    cases f <;> decide
  value := by
    cases f with
    | filter => exact .string (by cases hf : s.filter <;> decide)
    | drawSprites => exact .bool s.drawSprites
    | autoFrameSkip => exact .bool s.autoFrameSkip
    | _ => exact .integer false _

/-- A file that is printed is read as the settings it was printed from, if these are valid. -/
theorem Codec.Documented.parse_write (hc : codec.Documented) (s : Settings) :
    parseWith codec (codec.write s) = s.validate := by
  have hmembers : ∀ m ∈ fields.map fun f => (f.name, s.get f), PrintableMember m := by
    intro m hm
    obtain ⟨f, -, rfl⟩ := List.mem_map.mp hm
    exact printable_get s f
  obtain ⟨file, htext, hvalue⟩ := exists_draft_printObject hmembers
  rw [List.map_map] at hvalue
  have hparse := hc.parse_draft (lists_map s fields) (by decide) ⟨[], rfl⟩ hvalue ⟨[], rfl⟩
  rwa [List.nil_append, List.append_nil, htext, String.ofList_toList, copyAll_fields, ← hc.layout] at hparse

/-! ### The library of the program -/

theorem ofName?_name (f : Field) : Field.ofName? f.name = some f := by cases f <;> decide

theorem ofName?_other {name : String} (h : ∀ f : Field, f.name ≠ name) : Field.ofName? name = none :=
  List.find?_eq_none.mpr fun f _ => by simpa using h f

theorem name_of_ofName? {name : String} {f : Field} (h : Field.ofName? name = some f) : f.name = name := by
  have hfound : (f.name == name) = true := List.find?_some (p := fun f : Field => f.name == name) h
  exact beq_iff_eq.mp hfound

theorem natAtMost?_ofNat {n limit : Nat} (h : n ≤ limit) : (Json.ofNat n).natAtMost? limit = some n := by
  have hall : (Nat.toDigits 10 n).all isDigit = true := List.all_eq_true.mpr (isDigit_toDigits n)
  simp [Json.ofNat, natAtMost?, hall, digitsValue_toDigits, h]

/-- To set a field is to copy it from settings that have it. -/
theorem put?_eq (readers : Readers) (s : Settings) (f : Field) (value : Json) :
    readers.put? s f value = (readers.put? {} f value).map (s.copy · f) := by
  cases f <;> simp only [Readers.put?, Option.map_map] <;> rfl

/-- Two fields are set in either order. -/
theorem put?_comm (readers : Readers) {f g : Field} (h : f ≠ g) (s : Settings) (value value' : Json) :
    (readers.put? s f value).bind (readers.put? · g value') =
      (readers.put? s g value').bind (readers.put? · f value) := by
  have hcopy : ∀ u w : Settings, (s.copy u f).copy w g = (s.copy w g).copy u f := by
    intro u w
    cases f <;> cases g <;> first | exact absurd rfl h | rfl
  have hf (t : Settings) := put?_eq readers t f value
  have hg (t : Settings) := put?_eq readers t g value'
  generalize readers.put? {} f value = u at hf
  generalize readers.put? {} g value' = w at hg
  simp only [hf, hg]
  cases u <;> cases w <;> simp [hcopy]

/-- A field that no member names may as well be set after them. -/
theorem ofMembers?_put {f : Field} (value : Json) {members : List (Option String × Json)}
    (h : ∀ m ∈ members, m.1 ≠ some f.name) (s : Settings) {seen seen' : List Field}
    (hseen : ∀ g, g ≠ f → seen'.contains g = seen.contains g) :
    (jsonReaders.put? s f value).bind (ofMembers? · seen' members) =
      (ofMembers? s seen members).bind (jsonReaders.put? · f value) := by
  induction members generalizing s seen seen' with
  | nil =>
    simp only [ofMembers?, Option.bind_some]
    exact Option.bind_fun_some _
  | cons m members ih =>
    obtain ⟨hfirst, hrest⟩ := List.forall_mem_cons.mp h
    obtain ⟨_ | name, value'⟩ := m
    · simp only [ofMembers?, Option.bind_none, Option.bind_fun_none]
    · simp only [ofMembers?]
      cases hname : Field.ofName? name with
      | none => exact ih hrest s hseen
      | some g =>
        have hne : g ≠ f := fun heq => hfirst (by rw [← name_of_ofName? hname, heq])
        simp only [hseen g hne]
        by_cases htwice : seen.contains g = true
        · simp only [htwice, if_true, Option.bind_none, Option.bind_fun_none]
        · simp only [htwice, if_false, Bool.false_eq_true]
          rw [← Option.bind_assoc, put?_comm jsonReaders hne.symm, Option.bind_assoc, Option.bind_assoc]
          refine Option.bind_congr fun t _ => ih hrest t fun k hk => ?_
          simp only [List.contains_cons, hseen k hk]

theorem json_documented : json.Documented where
  spelled before file after := by
    show (Json.read? _).bind ofJson? = ofJson? file.value
    rw [read_draft, Option.bind_some]
  silent := rfl
  unknown value members h := by
    show ofMembers? {} [] _ = ofMembers? {} [] members
    rw [ofMembers?, ofName?_other h]
  known f value members h := by
    show ofMembers? {} [] _ = (ofMembers? {} [] members).bind _
    rw [ofMembers?, ofName?_name]
    exact ofMembers?_put value h {} fun g hne => by simp [hne]
  word h := by
    show (natAtMost? _ _).map _ = _
    rw [natAtMost?_ofNat h, Option.map_some]
  byte h := by
    show (natAtMost? _ _).map _ = _
    rw [natAtMost?_ofNat h, Option.map_some]
  bool value := rfl
  filter f := by cases f <;> decide
  layout s := rfl

/-! ### Files -/

/-- Files are read and written with any library that does what it is documented to. A file with any of the fields,
in any order, gives these values and the defaults elsewhere, or an error if they are not valid; what else it holds
does not matter. Valid settings are read back from the file that is printed of them. -/
theorem parse_file (hc : codec.Documented) :
    (∀ (s : Settings) (fs : List Field), fs.Nodup →
      ∀ (members : List (Option String × Json)), Lists s fs members →
      ∀ (before : Blanks) (file : Draft) (after : Blanks), file.value = .object members →
        let text := String.ofList (before.val ++ (file.text ++ after.val))
        let t := ({} : Settings).copyAll s fs
        (t.Valid → parseWith codec text = .ok t) ∧ (¬ t.Valid → ∃ e, parseWith codec text = .error e)) ∧
    ∀ s : Settings, s.Valid → parseWith codec (codec.write s) = .ok s := by
  refine ⟨?_, fun s h => (hc.parse_write s).trans (validate_of_valid h)⟩
  intro s fs hnodup members hlists before file after hfile text t
  have hparse : parseWith codec text = t.validate := hc.parse_draft hlists hnodup before hfile after
  rw [hparse]
  exact ⟨validate_of_valid, validate_of_not_valid⟩

/-- A file with a filter, an author and the width of samples. -/
def authored (bits : Nat) : Draft :=
  let gap : Blanks := ⟨[], rfl⟩
  let space : Blanks := ⟨[' '], rfl⟩
  let age : DraftItems := .more gap (.integer false 41) gap (.last space .null gap)
  let person : DraftMembers := .last gap (spell "age".toList (by decide)) gap space (.array age) gap
  .object
    (.more space (spell "filter".toList (by decide)) gap space (.string (spell "none".toList (by decide))) gap
      (.more space (spell "by".toList (by decide)) gap space (.object person) space
        (.last gap (spell "sample_bits".toList (by decide)) gap space (.integer false bits) space)))

/-- A file with two fields around a foreign one, the same with a width that is refused, and a printed file. -/
theorem parse_authored :
    parse "\x7b \"filter\": \"none\", \"by\": \x7b\"age\": [41, null]\x7d ,\"sample_bits\": 8 \x7d" =
        .ok { filter := .none, sampleBits := 8 } ∧
      (∃ e, parse "\x7b \"filter\": \"none\", \"by\": \x7b\"age\": [41, null]\x7d ,\"sample_bits\": 12 \x7d" =
        .error e) ∧
      parse ({ filter := .none, sampleBits := 8 } : Settings).print =
        .ok { filter := .none, sampleBits := 8 } := by
  have hby : ∀ f : Field, f.name ≠ "by" := by
    intro f
    cases f <;> decide
  have hlists : ∀ s : Settings, Lists s [.filter, .sampleBits] _ := fun s =>
    .field .filter (.other (.object [(some "age", .array [.number ['4', '1'], .null])]) hby
      (.field .sampleBits .nil))
  have hvalid : ({ filter := .none, sampleBits := 8 } : Settings).Valid :=
    ⟨Or.inl rfl, by decide, by decide, by decide⟩
  have hfile := fun s file => (parse_file json_documented).1 s _ (by decide) _ (hlists s) ⟨[], rfl⟩ file ⟨[], rfl⟩
  refine ⟨?_, ?_, (parse_file json_documented).2 _ hvalid⟩
  · exact (hfile { filter := .none, sampleBits := 8 } (authored 8) rfl).1 hvalid
  · refine (hfile { filter := .none, sampleBits := 12 } (authored 12) rfl).2 ?_
    exact fun h => absurd h.bits (by decide)

end Settings

end Famicom
