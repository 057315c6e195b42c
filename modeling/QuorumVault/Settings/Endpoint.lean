import QuorumVault.Settings.Fault
import QuorumVault.Settings.SocketAddress

/-!
# Endpoints

The address at which a vault is served: a socket of the internet, a file, or a socket between a
virtual machine and its host. Each kind has a scheme of its own, with which its text begins.
-/

namespace QuorumVault

/-- An address at which a vault is served. -/
inductive Endpoint where
  | tcp (address : SocketAddress)
  | file (path : String)
  | machine (context port : UInt32)
deriving DecidableEq

namespace Endpoint

def text : Endpoint → String
  | tcp address => "tcp://" ++ String.ofList address.chars
  | file path => "unix://" ++ path
  | machine context port => s!"vsock://{context}:{port}"

/-- What follows a scheme at the front of a text. -/
def strip? : (scheme chars : List Char) → Option (List Char)
  | [], chars => some chars
  | _ :: _, [] => none
  | s :: scheme, c :: chars => if s = c then strip? scheme chars else none

/-- A number of 32 bits. -/
def word? (chars : List Char) : Option UInt32 :=
  match Numeral.read 0xffffffff chars with
  | .ok n => some (UInt32.ofNat n)
  | .error _ => none

/-- The socket of a virtual machine, given as two numbers with a colon between them. -/
def machine? (chars : List Char) : Except String Endpoint :=
  match chars.dropWhile (· ≠ ':') with
  | [] => .error "expected cid:port"
  | _ :: rest =>
    match word? (chars.takeWhile (· ≠ ':')) with
    | none => .error "cid must be a u32"
    | some context =>
      match word? rest with
      | none => .error "port must be a u32"
      | some port => .ok (machine context port)

/-- The endpoint that the characters denote, or the reason why they denote none. -/
def ofChars? (chars : List Char) : Except String Endpoint :=
  match strip? "tcp://".toList chars with
  | some rest =>
    match SocketAddress.ofChars? rest with
    | some address => .ok (tcp address)
    | none => .error "expected host:port"
  | none =>
    match strip? "unix://".toList chars with
    | some rest =>
      if rest.isEmpty then .error "empty socket path" else .ok (file (String.ofList rest))
    | none =>
      match strip? "vsock://".toList chars with
      | some rest => machine? rest
      | none => .error "unknown scheme"

def ofText? (text : String) : Except SettingsFault Endpoint :=
  match ofChars? text.toList with
  | .ok endpoint => .ok endpoint
  | .error reason => .error (.endpoint text reason)

/-- Port 50051 of the host itself. -/
def standard : Endpoint := .tcp (.v4 ⟨127, 0, 0, 1⟩ 50051)

end Endpoint

end QuorumVault
