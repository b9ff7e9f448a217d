import Caveat.Publish.Scan

/-!
# Commands

What the installers share: how the path of an executable is quoted for a shell, and how a command is
split into tokens.
-/

namespace Caveat.Install

open Js
open Publish (isSpaceUnit)

def quoteMark : UInt16 := unitOf '"'

/-- A path with white space or a backslash in it is quoted. -/
def quoteCommandPath (p : Units) : Units :=
  if p.any fun u => isSpaceUnit u || u = unitOf '\\' then quoteMark :: (p ++ [quoteMark]) else p

end Caveat.Install
