import MbedCloud.Lib.Word
import Mathlib.Data.List.Basic

/-!
# Queries of observation attributes

How `m2mreporthandler.cpp` cuts a query into options, and copies an option into the buffers for the
name and the value of an attribute. A string is the list of its bytes in front of the zero.
-/

namespace MbedCloud.Lwm2m

open List

/-- '&' -/
def ampersand : UInt8 := 0x26

/-- `memcpy` of a string into a buffer of 20 zeros, the last of which has to stay. -/
def copyString (bytes : Bytes) : Option Bytes :=
  if bytes.length < 20 then some (bytes ++ replicate (20 - bytes.length) 0) else none

end MbedCloud.Lwm2m

