import Mathlib.Data.Int.Notation

/-! Return codes of the kernel (`kernel/include/types.h`). -/
namespace AegisOS

def aegisOk : Int := 0
def aegisEnomem : Int := -1
def aegisEinval : Int := -2
def aegisEperm : Int := -3
def aegisEnoent : Int := -4
def aegisEbusy : Int := -5
def aegisEio : Int := -6
def aegisEnosys : Int := -7
def aegisEagain : Int := -8
def aegisEchild : Int := -9
def aegisEtimedout : Int := -10
def aegisEnospc : Int := -12
def aegisEshutdown : Int := -13

theorem enomem_neg : aegisEnomem < 0 := by decide
theorem einval_neg : aegisEinval < 0 := by decide
theorem enoent_neg : aegisEnoent < 0 := by decide
theorem ebusy_neg : aegisEbusy < 0 := by decide

end AegisOS
