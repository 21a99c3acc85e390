import Paxe.Keystore

/-! # The prefix codec (`src/codec.rs`): header, flags byte, and the gates on them -/

namespace Paxe
open Wire

def headerLen : Nat := 8
def prefixLen : Nat := 9

def dekBit : UInt8 := 0x01
def fixedMask : UInt8 := 0x06
def fixedPattern : UInt8 := 0x04

inductive Mode where
  | standard
  | dek
  deriving DecidableEq, Repr

structure Header where
  fromId : UInt16
  toId : UInt16
  channel : UInt32
  deriving DecidableEq, Repr

/-- `u16::to_be_bytes` and `u32::to_be_bytes`. -/
def u16ToBeBytes (x : UInt16) : Fixed 2 := ⟨beEncode 2 x.toNat, beEncode_length _ _⟩
def u32ToBeBytes (x : UInt32) : Fixed 4 := ⟨beEncode 4 x.toNat, beEncode_length _ _⟩

/-- `u16::from_be_bytes` and `u32::from_be_bytes`. -/
def u16FromBeBytes (b : Fixed 2) : UInt16 := UInt16.ofNat (beDecode b.val)
def u32FromBeBytes (b : Fixed 4) : UInt32 := UInt32.ofNat (beDecode b.val)

def Header.toBytes (h : Header) : Fixed headerLen :=
  ⟨(u16ToBeBytes h.fromId).val ++ (u16ToBeBytes h.toId).val ++ (u32ToBeBytes h.channel).val, by
    simp [u16ToBeBytes, u32ToBeBytes, headerLen]⟩

def Header.fromBytes : Fixed headerLen → Header
  | ⟨[f0, f1, t0, t1, c0, c1, c2, c3], _⟩ =>
    { fromId := u16FromBeBytes ⟨[f0, f1], rfl⟩
      toId := u16FromBeBytes ⟨[t0, t1], rfl⟩
      channel := u32FromBeBytes ⟨[c0, c1, c2, c3], rfl⟩ }

/-- The validated flags byte: bits 1 and 2 are constant and not kept. -/
structure Flags where
  mode : Mode
  epoch : Epoch
  deriving DecidableEq, Repr

inductive CodecError where
  | tooShort (len : Nat)
  | invalidFlags (byte : UInt8)
  deriving DecidableEq, Repr

def Flags.toByte (f : Flags) : UInt8 :=
  let modeBit := match f.mode with
    | .standard => 0
    | .dek => dekBit
  modeBit ||| fixedPattern ||| (f.epoch.bits <<< 3)

def Flags.fromByte (byte : UInt8) : Except CodecError Flags :=
  if byte &&& fixedMask ≠ fixedPattern then .error (.invalidFlags byte)
  else
    let mode := if byte &&& dekBit = 0 then Mode.standard else Mode.dek
    match Epoch.new (byte >>> 3) with
    | .ok e => .ok ⟨mode, e⟩
    | .error _ => .error (.invalidFlags byte)

def parsePrefix (bytes : Bytes) : Except CodecError (Header × Flags) :=
  match slice bytes 0 prefixLen with
  | some [f0, f1, t0, t1, c0, c1, c2, c3, flagsByte] =>
    match Flags.fromByte flagsByte with
    | .error e => .error e
    | .ok flags => .ok (Header.fromBytes ⟨[f0, f1, t0, t1, c0, c1, c2, c3], rfl⟩, flags)
  | _ => .error (.tooShort bytes.length)

def serializePrefix (header : Header) (flags : Flags) : Fixed prefixLen :=
  ⟨header.toBytes.val ++ [flags.toByte], by simp [header.toBytes.property, headerLen, prefixLen]⟩

end Paxe
