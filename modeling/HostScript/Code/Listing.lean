import HostScript.Code.Compiled
import HostScript.Text.Class

namespace HostScript

-- A number in at least four places, filled up with zeros behind the sign.
def fourPlaces (n : Int) : String :=
  let digits := toString n.natAbs
  let sign := if n < 0 then "-" else ""
  let missing := 4 - (sign.length + digits.length)
  sign ++ String.ofList (List.replicate missing '0') ++ digits

namespace CompiledScript

def poolText (s : CompiledScript) (index : UInt16) : String :=
  match s.strings[index.toNat]? with
  | some text => Text.quoted text
  | none => s!"#{index.toNat}?"

-- The operands of an instruction as the listing shows them; empty for an instruction without any.
def operandText (s : CompiledScript) : Instr → String
  | .pushLong n => toString n.toInt
  | .pushDouble x => Number.listed x
  | .pushString index | .getDynamicProperty index | .setDynamicProperty index => s.poolText index
  | .loadLoc slot | .loadLocNoRef slot | .setLoc slot | .setLocNoRef slot => s!"loc {slot.toNat}"
  | .jump target | .jumpIf _ target => s!"-> {fourPlaces target.toInt}"
  | .invoke id | .invokeStatic id => s!"method #{id.toInt}"
  | .getProperty id | .setProperty id | .getStaticProperty id | .setStaticProperty id =>
    s!"property #{id.toInt}"
  | .new id => s!"ctor #{id.toInt}"
  | .invokeDynamic name argc => s!"{s.poolText name} argc {argc.toNat}"
  | .checkType ty => s!"<{ty.text}>"
  | .peekCheckType ty depth => s!"<{ty.text}> depth {depth.toNat}"
  | .loop count length => s!"x{count.toInt} len {length.toInt}"
  | .loopNum length => s!"len {length.toInt}"
  | _ => ""

-- One line per instruction from `pos` on. What cannot be decoded ends the listing.
def codeLines (s : CompiledScript) : (fuel pos : Nat) → List String
  | 0, _ => []
  | fuel + 1, pos =>
    match s.code[pos]? with
    | none => []
    | some byte =>
      let place := fourPlaces pos
      match Opcode.ofByte? byte with
      | none => [s!"{place}  <bad opcode {Text.hexText 2 byte.toNat}>"]
      | some op =>
        match Instr.read? s.code op (pos + 1) with
        | none => [s!"{place}  <bad operands for {op.name}>"]
        | some instr =>
          let operands := s.operandText instr
          let line := if operands.isEmpty then s!"{place}  {op.name}"
            else s!"{place}  {op.name} {operands}"
          line :: codeLines s fuel (pos + 1 + op.operandSize)

-- A readable listing: a heading, the inputs and the instructions, one line each.
def listing (s : CompiledScript) : String :=
  let heading := s!"; {s.name} ({s.localsCount} locals, stack {s.maxStack}, " ++
    s!"{s.strings.size} strings)"
  let inputs := s.inputs.map fun (name, slot) =>
    s!"; in {name} <{slot.ty.text}> -> loc {slot.slot}"
  String.join ((heading :: inputs ++ s.codeLines s.code.size 0).map (· ++ "\n"))

end CompiledScript

end HostScript
