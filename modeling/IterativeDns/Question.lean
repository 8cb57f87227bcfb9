import IterativeDns.Name
import IterativeDns.RecordType

/-!
# Questions

A question asks for the records of one name, type and class. It is what a query carries and
the key under which records are kept. Two questions are the same when their keys are: the
case of the letters of the name does not count.
-/

namespace IterativeDns

/-- The name, type and class asked for, or owned by a record. -/
structure Question where
  name : String
  recordType : RecordType
  recordClass : RecordClass
deriving DecidableEq, Repr, Inhabited

namespace Question

/-- The question for the name meant by a text. -/
def ofText (text : String) (recordType : RecordType) (recordClass : RecordClass := .«in») :
    Question :=
  ⟨Name.normalize text, recordType, recordClass⟩

def root (recordType : RecordType) : Question :=
  ofText "" recordType

/-- The same type and class for the name meant by another text. -/
def withName (q : Question) (text : String) : Question :=
  ofText text q.recordType q.recordClass

/-- The same name and class for another type. -/
def withType (q : Question) (recordType : RecordType) : Question :=
  { q with recordType }

/-- What identifies a question. -/
def key (q : Question) : List Char × RecordType × RecordClass :=
  (Text.lower q.name, q.recordType, q.recordClass)

def sameAs (a b : Question) : Bool :=
  a.key == b.key

def isRoot (q : Question) : Bool :=
  q.name.toList.isEmpty

def labels (q : Question) : List String :=
  Name.labels q.name

/-- The name and its ancestor zones, the root last. -/
def zones (q : Question) : List String :=
  Name.zones q.name

/-- The text of a question: the absolute name, the class and the type. -/
def text (q : Question) : String :=
  q.name ++ ". " ++ q.recordClass.text ++ " " ++ q.recordType.text

theorem sameAs_iff {a b : Question} : a.sameAs b = true ↔ a.key = b.key := by
  simp [sameAs]

theorem sameAs_refl (q : Question) : q.sameAs q = true := by
  simp [sameAs]

@[simp] theorem name_withType (q : Question) (t : RecordType) : (q.withType t).name = q.name := rfl

@[simp] theorem recordType_withType (q : Question) (t : RecordType) :
    (q.withType t).recordType = t := rfl

@[simp] theorem recordClass_withType (q : Question) (t : RecordType) :
    (q.withType t).recordClass = q.recordClass := rfl

end Question

end IterativeDns
