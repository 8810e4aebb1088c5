import HostScript.Proofs.Code.Codec
import HostScript.Proofs.Machine.WellFormed

namespace HostScript

-- The instruction that does the same for all kinds of values.
def Opcode.generic : Opcode → Opcode
  | .addNum => .add
  | .subNum => .sub
  | .mulNum => .mul
  | .divNum => .div
  | .modNum => .mod
  | .lessNum => .less
  | .lessEqNum => .lessEq
  | .greaterNum => .greater
  | .greaterEqNum => .greaterEq
  | .equalsNum => .equals
  | .notEqualsNum => .notEquals
  | .negNum => .neg
  | op => op

def Instr.generic : Instr → Instr
  | .arithNum op => .arith op
  | .orderNum op => .order op
  | .equalsNum negated => .equals negated
  | .negNum => .neg
  | i => i

def Opcode.genericByte (byte : UInt8) : UInt8 :=
  match Opcode.ofByte? byte with
  | some op => op.generic.byte
  | none => byte

theorem Opcode.operandSize_generic (op : Opcode) : op.generic.operandSize = op.operandSize := by
  cases op <;> rfl

theorem Instr.flow_generic (i : Instr) : i.generic.flow = i.flow := by
  cases i <;> rfl

theorem Instr.read?_generic (code : Bytes) (op : Opcode) (pos : Nat) :
    Instr.read? code op.generic pos = (Instr.read? code op pos).map Instr.generic := by
  cases op with
  | invokeDynamic =>
      simp only [Opcode.generic, Instr.read?, bind, Option.bind]
      cases code.u16? pos with
      | none => rfl
      | some name => cases code.u16? (pos + 2) <;> rfl
  | checkType =>
      simp only [Opcode.generic, Instr.read?, bind, Option.bind]
      cases code.i32? pos with
      | none => rfl
      | some operand => cases hty : TypeGuard.decode operand <;> simp [hty, Instr.generic]
  | peekCheckType =>
      simp only [Opcode.generic, Instr.read?, bind, Option.bind]
      cases code.i32? pos with
      | none => rfl
      | some operand => cases hty : TypeGuard.decodeAt operand <;> simp [hty, Instr.generic]
  | loop =>
      simp only [Opcode.generic, Instr.read?, bind, Option.bind]
      cases code.i32? pos with
      | none => rfl
      | some count => cases code.i32? (pos + 4) <;> rfl
  | pushLong => cases hn : code.i64? pos <;> simp [Opcode.generic, Instr.read?, hn, Instr.generic]
  | pushDouble => cases hn : code.f64? pos <;> simp [Opcode.generic, Instr.read?, hn, Instr.generic]
  | pushString | getDynamicProperty | setDynamicProperty =>
      cases hn : code.u16? pos <;> simp [Opcode.generic, Instr.read?, hn, Instr.generic]
  | loadLoc | loadLocNoRef | setLoc | setLocNoRef =>
      cases hn : code.u8? pos <;> simp [Opcode.generic, Instr.read?, hn, Instr.generic]
  | jump | jumpIfFalse | jumpIfTrue | invoke | invokeStatic | getProperty | setProperty
  | getStaticProperty | setStaticProperty | new | loopNum =>
      cases hn : code.i32? pos <;> simp [Opcode.generic, Instr.read?, hn, Instr.generic]
  | _ => rfl

namespace Bytes

theorem nat?_congr {code code' : Bytes} {count pos : Nat}
    (h : ∀ k < count, code'[pos + k]? = code[pos + k]?) : nat? code' count pos = nat? code count pos := by
  induction count generalizing pos with
  | zero => rfl
  | succ count ih =>
      have hfirst : code'[pos]? = code[pos]? := h 0 (Nat.succ_pos count)
      have hrest : nat? code' count (pos + 1) = nat? code count (pos + 1) := by
        refine ih fun k hk => ?_
        have hnext := h (k + 1) (by omega)
        rwa [Nat.add_comm k 1, ← Nat.add_assoc] at hnext
      simp only [nat?, hfirst, hrest]

end Bytes

-- Only the operands of an instruction are read.
theorem Instr.read?_congr {code code' : Bytes} {op : Opcode} {pos : Nat}
    (h : ∀ k < op.operandSize, code'[pos + k]? = code[pos + k]?) :
    Instr.read? code' op pos = Instr.read? code op pos := by
  have hnat : ∀ skip count, skip + count ≤ op.operandSize →
      Bytes.nat? code' count (pos + skip) = Bytes.nat? code count (pos + skip) := by
    intro skip count hle
    refine Bytes.nat?_congr fun k hk => ?_
    rw [Nat.add_assoc]
    exact h (skip + k) (by omega)
  cases op with
  | loadLoc | loadLocNoRef | setLoc | setLocNoRef =>
      have hbyte : code'[pos]? = code[pos]? := h 0 (by decide)
      simp only [Instr.read?, Bytes.u8?, hbyte]
  | pushString | getDynamicProperty | setDynamicProperty =>
      have hword := hnat 0 2 (by decide)
      rw [Nat.add_zero] at hword
      simp only [Instr.read?, Bytes.u16?, hword]
  | pushLong | pushDouble =>
      have hword := hnat 0 8 (by decide)
      rw [Nat.add_zero] at hword
      simp only [Instr.read?, Bytes.i64?, Bytes.f64?, hword]
  | invokeDynamic =>
      have hname := hnat 0 2 (by decide)
      have hargc := hnat 2 2 (by decide)
      rw [Nat.add_zero] at hname
      simp only [Instr.read?, Bytes.u16?, hname, hargc]
  | loop =>
      have hcount := hnat 0 4 (by decide)
      have hlength := hnat 4 4 (by decide)
      rw [Nat.add_zero] at hcount
      simp only [Instr.read?, Bytes.i32?, hcount, hlength]
  | jump | jumpIfFalse | jumpIfTrue | invoke | invokeStatic | getProperty | setProperty
  | getStaticProperty | setStaticProperty | new | checkType | peekCheckType | loopNum =>
      have hword := hnat 0 4 (by decide)
      rw [Nat.add_zero] at hword
      simp only [Instr.read?, Bytes.i32?, hword]
  | _ => rfl

namespace CompiledScript

-- Where the instructions begin, read one behind the other.
def starts (s : CompiledScript) : (fuel pos : Nat) → List Nat
  | 0, _ => []
  | fuel + 1, pos =>
    match s.fetch pos with
    | .ok (_, next) => pos :: s.starts fuel next
    | .error _ => []

-- The same script with every instruction for numbers replaced by the one for all kinds of values.
def generic (s : CompiledScript) : CompiledScript :=
  { s with code := s.code.mapIdx fun pos byte =>
      if pos ∈ s.starts s.code.size 0 then Opcode.genericByte byte else byte }

variable {s : CompiledScript} {p q x : Nat} {i : Instr}

theorem size_generic (s : CompiledScript) : s.generic.code.size = s.code.size := by
  simp [generic]

theorem whole_of_mem_starts {fuel : Nat} (hx : x ∈ s.starts fuel p) : s.Whole p x := by
  induction fuel generalizing p with
  | zero => simp [starts] at hx
  | succ fuel ih =>
      simp only [starts] at hx
      split at hx
      · rename_i i next hat
        rcases List.mem_cons.mp hx with rfl | hx
        · exact .nil
        · exact .cons hat trivial (ih hx)
      · simp at hx

theorem mem_starts {fuel : Nat} (hx : s.Whole p x) (hat : s.fetch x = .ok (i, q))
    (hfuel : s.code.size ≤ fuel + p) : x ∈ s.starts fuel p := by
  have hlt := lt_size_of_fetch hat
  induction hx generalizing fuel with
  | @nil p =>
      obtain ⟨fuel, rfl⟩ : ∃ k, fuel = k + 1 := ⟨fuel - 1, by omega⟩
      simp [starts, hat]
  | @cons p j next x hfirst _ hrest ih =>
      have hstep := lt_of_fetch hfirst
      have hle := Rows.le hrest
      obtain ⟨fuel, rfl⟩ : ∃ k, fuel = k + 1 := ⟨fuel - 1, by omega⟩
      simp only [starts, hfirst]
      exact List.mem_cons_of_mem _ (ih hat (by omega) hlt)

-- No instruction begins among the operands of another one.
theorem not_start_between {fuel : Nat} (hp : s.Whole 0 p) (hat : s.fetch p = .ok (i, q))
    (hlow : p < x) (hhigh : x < q) : x ∉ s.starts fuel 0 := by
  intro hx
  have hrest : s.Whole p x := (whole_of_mem_starts hx).after hp (Nat.le_of_lt hlow)
  cases hrest with
  | nil => exact Nat.lt_irrefl _ hlow
  | cons hat' _ hrest =>
      cases Except.ok.inj (hat.symm.trans hat')
      exact Nat.not_lt.mpr hrest.le hhigh

theorem code_generic (s : CompiledScript) (x : Nat) : s.generic.code[x]? =
    s.code[x]?.map fun byte =>
      if x ∈ s.starts s.code.size 0 then Opcode.genericByte byte else byte := by
  simp [generic]

-- Where an instruction is found, its replacement is found.
theorem fetch_generic (hp : s.Whole 0 p) (hat : s.fetch p = .ok (i, q)) :
    s.generic.fetch p = .ok (i.generic, q) := by
  have hstart : p ∈ s.starts s.code.size 0 := mem_starts hp hat (Nat.le_refl _)
  have hbetween : ∀ x, p < x → x < q → x ∉ s.starts s.code.size 0 := fun x hlow hhigh =>
    not_start_between hp hat hlow hhigh
  unfold fetch at hat
  split at hat
  · cases hat
  · rename_i byte hbyte
    split at hat
    · cases hat
    · rename_i op hop
      split at hat
      · rename_i j hread
        cases hat
        have hcode : s.generic.code[p]? = some op.generic.byte := by
          rw [code_generic, hbyte, Option.map_some, if_pos hstart, Opcode.genericByte, hop]
        have hoperands : ∀ k < op.operandSize,
            s.generic.code[p + 1 + k]? = s.code[p + 1 + k]? := by
          intro k hk
          have hnot := hbetween (p + 1 + k) (by omega) (by omega)
          simp [code_generic, hnot]
        have hread' : Instr.read? s.generic.code op.generic (p + 1) = some i.generic := by
          rw [Instr.read?_generic, Instr.read?_congr hoperands, hread, Option.map_some]
        have hfetch := fetch_of_read hcode hread'
        rwa [Opcode.operandSize_generic] at hfetch
      · cases hat

-- Jumps, and the ends of loops, lead between instructions.
structure Framed (s : CompiledScript) : Prop where
  jumps : ∀ p i q t, s.Whole 0 p → s.fetch p = .ok (i, q) → i.target? = some t →
    s.Whole 0 t.toNat
  bodies : ∀ p i q l, s.Whole 0 p → s.fetch p = .ok (i, q) → i.bodyLength? = some l →
    s.Whole 0 (q + l.toNat)

theorem WellFormed.framed {r : Registry} (h : s.WellFormed r) : s.Framed where
  jumps p i q t hp hat ht := by
    obtain ⟨n, rfl, hn, -⟩ := h.jumps p i q t hp hat ht
    simpa using hn
  bodies p i q l hp hat hl :=
    (hp.append (.one hat trivial)).append (h.bodies p i q l hp hat hl).whole

end CompiledScript

end HostScript
