/-!
# Return codes

`sdk/export/include/le_error.h`: the codes that the modelled functions return.
-/

namespace LedaSdk

def leSuccess : Int32 := 0
def leErrorUnknown : Int32 := 100000
def leErrorInvaildParam : Int32 := 100001
def leErrorAllocatingMem : Int32 := 100002
def leErrorCreatingMutex : Int32 := 100003
def leErrorTimeout : Int32 := 100006

theorem leErrorUnknown_ne : leErrorUnknown ≠ leSuccess := by decide

end LedaSdk
