import Mathlib
import ClassLang.Proofs.Lowering.Programs
/-!
# Lowering — accepted programs

`Accepted` says that a program was read from a text and that its analysis
found no errors. The analysis then knows all that lowering asks for
(`Accepted.supports`), so lowering succeeds (`Accepted.lowers`), and the
session that it ends with is complete (`Accepted.complete`).
-/


namespace ClassLang.Lowering

open Source (Program ClassDecl)
open Typing (Analysis)

/-- **The program was read from the text, and the analysis has no objections.**
Offsets in a text are numbers of 32 bits. -/
structure Accepted (source printName : String) (p : Program) : Prop where
  read : (Source.parse source).toExcept = .ok p
  addressable : source.utf8ByteSize < 2 ^ 32
  ok : (Typing.analyze p ⟨printName⟩).ok = true

namespace Accepted

variable {source printName : String} {p : Program}

/-- The members of all classes are the fields and the methods of each. -/
theorem memberCount_eq (p : Program) : p.memberCount =
    (p.classes.map (·.fields.length)).sum + (p.classes.map (·.methods.length)).sum := by
  rw [Program.memberCount]
  exact List.sum_map_add

/-- **An object has fewer fields than its program has bytes**: each takes three tokens. -/
theorem fields_le (h : Accepted source printName p) (id : ClassId) :
    3 * (p.fieldRefs id).length ≤ source.utf8ByteSize + 1 := by
  have hsound := (Typing.WellTyped.of_ok h.ok).classes
  have hle := Program.length_fieldRefs_le hsound.hierarchy.acyclic id
  have hmembers := Source.memberCount_parse_le h.read
  rw [memberCount_eq] at hmembers
  omega

theorem supports (h : Accepted source printName p) :
    Supports p printName (Typing.analyze p ⟨printName⟩) := by
  obtain ⟨hdescribes, hcovers⟩ := Typing.covers_analyze (Source.sane_parse h.read).nodes h.ok
  have hsound := (Typing.WellTyped.of_ok h.ok).classes
  have hmembers := Source.memberCount_parse_le h.read
  have hsize := h.addressable
  rw [memberCount_eq] at hmembers
  refine ⟨hdescribes, hsound, hcovers, fun id => ?_, fun id => ?_⟩
  · have hle := h.fields_le id
    omega
  · have hle := Program.length_slotNames_le (p := p) id
    omega

/-- What is read without an error, and analysed without one, is accepted. -/
theorem of_parse (hread : (Source.parse source).error? = none)
    (hsize : source.utf8ByteSize < 2 ^ 32)
    (hok : (Typing.analyze (Source.parse source).program ⟨printName⟩).ok = true) :
    Accepted source printName (Source.parse source).program :=
  ⟨by rw [Source.Parsed.toExcept, hread], hsize, hok⟩

/-- **Lowering ends with a complete session**, whose program is its result. -/
theorem complete (h : Accepted source printName p) (options : Options) :
    ∃ s : Session, (buildProgram (Typing.analyze p ⟨printName⟩) p options).run .start = .ok ((), s) ∧
      lowerProgram (Typing.analyze p ⟨printName⟩) p options = .ok s.ir ∧
        s.Complete p printName (Typing.analyze p ⟨printName⟩) := by
  obtain ⟨⟨⟩, s, hrun, hcomplete⟩ :=
    yields_buildProgram h.supports (Source.sane_parse h.read) options
  refine ⟨s, hrun, ?_, hcomplete⟩
  simp [lowerProgram, h.ok, hrun, bind, Except.bind, pure, Except.pure]

/-- **Accepted programs are lowered**, whatever the options are. -/
theorem lowers (h : Accepted source printName p) (options : Options) :
    ∃ ir, lowerProgram (Typing.analyze p ⟨printName⟩) p options = .ok ir := by
  obtain ⟨s, -, hs, -⟩ := h.complete options
  exact ⟨s.ir, hs⟩

end Accepted

/-- A class that overrides a method of another, and a call of the method. -/
def overriding : String :=
  "class A { int f() { return 1; } } class B extends A { int f() { return 2; } } " ++
    "int main() { A a; a = new B(); return a.f(); }"

set_option maxRecDepth 100000 in
/-- The program is read and analysed without an error, and this is what lowering
then knows of the classes and of the first method. -/
theorem run_overriding : (Source.parse overriding).error? = none ∧
    (Typing.analyze (Source.parse overriding).program ⟨"print"⟩).ok = true ∧
    (Source.parse overriding).program.superOf 1 = some 0 ∧
    ((buildProgram (Typing.analyze (Source.parse overriding).program ⟨"print"⟩)
      (Source.parse overriding).program ⟨false⟩).run .start).map (fun r => (r.2.classes,
        r.2.ir.structs[2]?, r.2.ir.globals.length, (r.2.ir.procs[1]?).map (·.params))) = .ok
    ([⟨"A", 0, 1, 0, [("f", 1)]⟩, ⟨"B", 2, 3, 1, [("f", 2)]⟩],
      some ⟨"class_B", [⟨"_vtable", .ptr (.struct 3)⟩]⟩, 2,
      some [⟨"this", .ptr (.struct 0)⟩]) := by
  rw [Source.parse_eq_of_chars overriding (Source.toList_ofList_append _ _)]
  decide +kernel

set_option maxRecDepth 100000 in
theorem accepted_overriding : Accepted overriding "print" (Source.parse overriding).program :=
  .of_parse run_overriding.1 (by decide) run_overriding.2.1

theorem lowers_overriding : ∃ ir, lowerProgram
    (Typing.analyze (Source.parse overriding).program ⟨"print"⟩)
    (Source.parse overriding).program ⟨true⟩ = .ok ir :=
  accepted_overriding.lowers ⟨true⟩

end ClassLang.Lowering
