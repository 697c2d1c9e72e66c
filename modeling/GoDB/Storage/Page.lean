import GoDB.Storage.Tuple

namespace GoDB.Storage
open Lib

abbrev PageBytes := { bytes : List Byte // bytes.length = pageSize }

def PageBytes.zero : PageBytes := ⟨List.replicate pageSize 0, List.length_replicate⟩

end GoDB.Storage
