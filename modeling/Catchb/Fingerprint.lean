import Catchb.Analysis
import Catchb.Sha1

/-! The hash value that a pass computes for a camera that answers. -/

namespace Catchb
open Lib

/-- The fourth field of the first line that contains the address as text. -/
def macField (file : List Char) (targetIP : Text) : Option Text :=
  match ((fgets 128 [] file).map cstr).find? (fun line => strstr line targetIP) with
  | none => none
  | some line => (strtok ' ' line)[3]?

/-- `FTM_ARP_parsing`: without that field the caller's memory stays as it is. -/
def arpParsing (file : Option (List Char)) (targetIP : Text) (pMAC : List Char) :
    Ret × List Char :=
  match file with
  | none => (.error, pMAC)
  | some file =>
    match macField file targetIP with
    | none => (.ok, pMAC)
    | some mac => (.ok, memcpy 48 pMAC mac)

/-- A field is part of a string. -/
theorem not_mem_macField {file : List Char} {targetIP mac : Text}
    (h : macField file targetIP = some mac) : '\x00' ∉ mac := by
  unfold macField at h
  split at h
  · cases h
  · rename_i line hline
    obtain ⟨mem, -, rfl⟩ := List.mem_map.mp (List.mem_of_find?_eq_some hline)
    have hmac : mac ∈ strtok ' ' (cstr mem) := List.mem_of_getElem? h
    intro h0
    exact not_mem_cstr mem (mem_of_mem_strtok hmac h0)

/-- The scanned ports and which of them were open. -/
abbrev Ports := {ports : List (UInt16 × Bool) // ports.length ≤ 32}

/-- The score in `%.1f` format. -/
abbrev Score := Field 48

/-- What a pass finds when its camera answers; `arp` is the ARP table's file. -/
structure Sight where
  arp : Option (List Char)
  ports : Ports
  score : Score

def portEntry (port : UInt16 × Bool) : Text :=
  decimal port.1.toNat ++ " - ".toList ++ (if port.2 then "open" else "close").toList

def ipText (ip : IP) (mac : Text) : Text :=
  "[ip : ".toList ++ ip.val ++ ", mac : ".toList ++ mac ++ "]".toList

def portText (ports : Ports) : Text :=
  " [port :".toList ++ ", ".toList.intercalate (ports.val.map portEntry) ++ "]".toList

def scoreText (score : Score) : Text := "[score : ".toList ++ score.val ++ "]".toList

/-- The text that is hashed. Its buffer of 1024 characters holds it for every hardware
address that fits its own array. -/
def hashData (ip : IP) (mac : Text) (ports : Ports) (score : Score) : Text :=
  ipText ip mac ++ portText ports ++ scoreText score

namespace Sight

/-- `pMAC` is the memory from the pass's own, not initialised, array on. -/
def mac (sight : Sight) (ip : IP) (pMAC : List Char) : Text :=
  cstr (arpParsing sight.arp ip.val pMAC).2

def data (sight : Sight) (ip : IP) (pMAC : List Char) : Text :=
  hashData ip (sight.mac ip pMAC) sight.ports sight.score

def hashValue (sight : Sight) (ip : IP) (pMAC : List Char) : Field 63 :=
  Sha1.hashSHA1 (sight.data ip pMAC)

end Sight

/-- A pass over a camera that answers. -/
def Sight.pass (sight : Sight) (pMAC : List Char) (config : CctvConfig) (test : TestConfig)
    (time errorProbability : UInt32) : Pass :=
  (Pass.begin config test
    ⟨time, true, sight.hashValue config.ip pMAC, errorProbability⟩).1

end Catchb
