import IterativeDns.Address

/-!
# Root hints

The root nameservers a resolver knows before it has asked anybody.
-/

namespace IterativeDns

/-- A root nameserver and its address. -/
structure RootHint where
  name : String
  address : Address
deriving DecidableEq, Repr

/-- The thirteen root nameservers by their version 4 addresses. -/
def RootHint.wellKnown : List RootHint :=
  [⟨"a.root-servers.net", .ofQuad 198 41 0 4⟩,
   ⟨"b.root-servers.net", .ofQuad 170 247 170 2⟩,
   ⟨"c.root-servers.net", .ofQuad 192 33 4 12⟩,
   ⟨"d.root-servers.net", .ofQuad 199 7 91 13⟩,
   ⟨"e.root-servers.net", .ofQuad 192 203 230 10⟩,
   ⟨"f.root-servers.net", .ofQuad 192 5 5 241⟩,
   ⟨"g.root-servers.net", .ofQuad 192 112 36 4⟩,
   ⟨"h.root-servers.net", .ofQuad 198 97 190 53⟩,
   ⟨"i.root-servers.net", .ofQuad 192 36 148 17⟩,
   ⟨"j.root-servers.net", .ofQuad 192 58 128 30⟩,
   ⟨"k.root-servers.net", .ofQuad 193 0 14 129⟩,
   ⟨"l.root-servers.net", .ofQuad 199 7 83 42⟩,
   ⟨"m.root-servers.net", .ofQuad 202 12 27 33⟩]

end IterativeDns
