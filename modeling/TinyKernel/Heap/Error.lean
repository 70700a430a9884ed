import TinyKernel.Paging.Error

/-!
# Why a heap cannot be set up
-/

namespace TinyKernel

/-- **Why a heap cannot be set up.**  Once it is, a request that cannot be met has no reason of its
own: it is answered with no pointer. -/
inductive HeapError where
  /-- Start, initial size and maximum size do not describe a usable range, and no page has been asked
  for. -/
  | invalidRange
  /-- A page of the initial arena could not be backed.  Those before it have been released again. -/
  | backing (page : VirtAddr) (cause : MapError)
  deriving DecidableEq

/-- The wording of a refusal, which quotes the wording of the page's own refusal. -/
def HeapError.message : HeapError → String
  | invalidRange => "Invalid heap range"
  | backing page cause => "Could not back heap page " ++ page.text ++ ": " ++ cause.message

end TinyKernel
