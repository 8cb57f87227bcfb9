import IterativeDns.Cache
import IterativeDns.RootHint

/-!
# Root hints in a cache

A cache that starts from root hints holds, for each of them, a nameserver record of the root and
the address of that nameserver, both permanent. No dots close the name of a hint, however many
were written.
-/

namespace IterativeDns

namespace RootHint

/-- The hint as a nameserver of the root. -/
def nameserver (h : RootHint) : Record :=
  .permanent (.root .ns) (.name (Name.stripAllDots h.name))

/-- The address of the hint's nameserver. -/
def addressRecord (h : RootHint) : Record :=
  .permanent (.ofText (Name.stripAllDots h.name) (Record.typeOfAddress h.address))
    (.address h.address)

/-- Both records of a hint. -/
def toRecords (h : RootHint) : List Record :=
  [h.nameserver, h.addressRecord]

end RootHint

namespace Cache

/-- Adds the records of root hints. -/
def seed (c : Cache) (hints : List RootHint) : Cache :=
  c.addAll (hints.flatMap RootHint.toRecords)

/-- A cache that knows the root nameservers and nothing else. -/
def ofRootHints (hints : List RootHint) : Cache :=
  seed {} hints

end Cache

end IterativeDns
