import CentNode.Primitives.Standard

/-!
# Opcodes, flags and errors of scripts

The enumerations of `script/script.h`, `script/interpreter.h` and
`script/script_error.h`.  Opcodes that share a body in the interpreter and
differ in nothing it reads are one opcode here.
-/

namespace CentNode

structure ScriptFlags where
  p2sh : Bool := false
  strictenc : Bool := false
  dersig : Bool := false
  lowS : Bool := false
  nulldummy : Bool := false
  sigpushonly : Bool := false
  minimaldata : Bool := false
  discourageUpgradableNops : Bool := false
  deriving DecidableEq, Repr

namespace ScriptFlags

structure Subset (fewer more : ScriptFlags) : Prop where
  p2sh : fewer.p2sh = true → more.p2sh = true
  strictenc : fewer.strictenc = true → more.strictenc = true
  dersig : fewer.dersig = true → more.dersig = true
  lowS : fewer.lowS = true → more.lowS = true
  nulldummy : fewer.nulldummy = true → more.nulldummy = true
  sigpushonly : fewer.sigpushonly = true → more.sigpushonly = true
  minimaldata : fewer.minimaldata = true → more.minimaldata = true
  discourageUpgradableNops :
    fewer.discourageUpgradableNops = true → more.discourageUpgradableNops = true

/-- `MANDATORY_SCRIPT_VERIFY_FLAGS`. -/
def mandatory : ScriptFlags := { p2sh := true }

/-- `STANDARD_SCRIPT_VERIFY_FLAGS`. -/
def standard : ScriptFlags :=
  { mandatory with
    dersig := true
    strictenc := true
    minimaldata := true
    nulldummy := true
    discourageUpgradableNops := true }

/-- `flags & STANDARD_NOT_MANDATORY_VERIFY_FLAGS`, as a truth value. -/
def hasStandardNotMandatory (flags : ScriptFlags) : Bool :=
  flags.dersig || flags.strictenc || flags.minimaldata || flags.nulldummy ||
    flags.discourageUpgradableNops

/-- `flags & ~STANDARD_NOT_MANDATORY_VERIFY_FLAGS`. -/
def withoutStandardNotMandatory (flags : ScriptFlags) : ScriptFlags :=
  { flags with
    dersig := false
    strictenc := false
    minimaldata := false
    nulldummy := false
    discourageUpgradableNops := false }

theorem mandatory_subset_standard : mandatory.Subset standard := by
  constructor <;> decide

end ScriptFlags

inductive ScriptError where
  | unknownError
  | evalFalse
  | opReturn
  | scriptSize
  | pushSize
  | opCount
  | stackSize
  | sigCount
  | pubkeyCount
  | verify
  | equalverify
  | checkmultisigverify
  | checksigverify
  | numequalverify
  | badOpcode
  | disabledOpcode
  | invalidStackOperation
  | invalidAltstackOperation
  | unbalancedConditional
  | sigHashtype
  | sigDer
  | minimaldata
  | sigPushonly
  | sigHighS
  | sigNulldummy
  | pubkeytype
  | discourageUpgradableNops
  deriving DecidableEq, Repr

/-- The opcodes that `EvalScript` has a case for. -/
inductive Opcode where
  /-- `OP_1NEGATE`, and `OP_1` to `OP_16`. -/
  | opN
  | nop
  /-- `OP_NOP1` to `OP_NOP10`. -/
  | upgradableNop
  | opIf
  | notif
  | opElse
  | endif
  | verify
  | opReturn
  | toaltstack
  | fromaltstack
  | drop2
  | dup2
  | dup3
  | over2
  | rot2
  | swap2
  | ifdup
  | depth
  | drop
  | dup
  | nip
  | opOver
  | pick
  | roll
  | rot
  | swap
  | tuck
  | size
  | equal
  | equalverify
  | add1
  | sub1
  | negate
  | abs
  | not
  | notequal0
  | add
  | sub
  | booland
  | boolor
  | numequal
  | numequalverify
  | numnotequal
  | lessthan
  | greaterthan
  | lessthanorequal
  | greaterthanorequal
  | min
  | max
  | within
  | ripemd160
  | sha1
  | sha256
  | hash160
  | hash256
  | codeseparator
  | checksig
  | checksigverify
  | checkmultisig
  | checkmultisigverify
  /-- What falls to the `default` case. -/
  | other
  deriving DecidableEq, Repr

namespace Opcode

/-- The enumeration `opcodetype`, for the opcodes with a case of their own. -/
def table : List (UInt8 × Opcode) :=
  [(0x61, nop), (0x63, opIf), (0x64, notif), (0x67, opElse), (0x68, endif), (0x69, verify),
    (0x6a, opReturn), (0x6b, toaltstack), (0x6c, fromaltstack), (0x6d, drop2), (0x6e, dup2),
    (0x6f, dup3), (0x70, over2), (0x71, rot2), (0x72, swap2), (0x73, ifdup), (0x74, depth),
    (0x75, drop), (0x76, dup), (0x77, nip), (0x78, opOver), (0x79, pick), (0x7a, roll),
    (0x7b, rot), (0x7c, swap), (0x7d, tuck), (0x82, size), (0x87, equal), (0x88, equalverify),
    (0x8b, add1), (0x8c, sub1), (0x8f, negate), (0x90, abs), (0x91, not), (0x92, notequal0),
    (0x93, add), (0x94, sub), (0x9a, booland), (0x9b, boolor), (0x9c, numequal),
    (0x9d, numequalverify), (0x9e, numnotequal), (0x9f, lessthan), (0xa0, greaterthan),
    (0xa1, lessthanorequal), (0xa2, greaterthanorequal), (0xa3, min), (0xa4, max),
    (0xa5, within), (0xa6, ripemd160), (0xa7, sha1), (0xa8, sha256), (0xa9, hash160),
    (0xaa, hash256), (0xab, codeseparator), (0xac, checksig), (0xad, checksigverify),
    (0xae, checkmultisig), (0xaf, checkmultisigverify)]

def ofByte (opcode : UInt8) : Opcode :=
  if opcode = 0x4f ∨ (opN1 ≤ opcode ∧ opcode ≤ opN16) then opN
  else if 0xb0 ≤ opcode ∧ opcode ≤ 0xb9 then upgradableNop
  else (table.lookup opcode).getD other

/-- The opcodes that make a script fail even where they are not executed: `OP_CAT`,
`OP_SUBSTR`, `OP_LEFT`, `OP_RIGHT`, `OP_INVERT`, `OP_AND`, `OP_OR`, `OP_XOR`, `OP_2MUL`,
`OP_2DIV`, `OP_MUL`, `OP_DIV`, `OP_MOD`, `OP_LSHIFT` and `OP_RSHIFT`. -/
def disabled : List UInt8 :=
  [0x7e, 0x7f, 0x80, 0x81, 0x83, 0x84, 0x85, 0x86, 0x8d, 0x8e, 0x95, 0x96, 0x97, 0x98, 0x99]

end Opcode

end CentNode
