import MyLibs.ChainedHash.Runs

/-!
# Strings as keys

Without operations of its caller a table hashes its keys with `my_hash_string` and
compares them with `strcmp`: it maps strings, whatever addresses they are at.
-/

namespace MyLibs
namespace ChainedHash

section Default

variable {signed : Bool} {string : Ptr -> CString}

variable {hash : MyHash} {HASH_GROW_STEP size : Nat} {calls : List Call}

end Default

end ChainedHash
end MyLibs
