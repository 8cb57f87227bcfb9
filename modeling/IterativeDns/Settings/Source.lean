import IterativeDns.Settings.Printer
import IterativeDns.Settings.Reading
import IterativeDns.Toml.Parser

/-!
# Where settings come from

Settings are read from a file: the one that is asked for, or else the first that is there of a
file in the working directory and one for the whole machine, or else none, and then the defaults
hold. Overrides are applied to what was read, and only then is it checked whether the settings
can be used. A file that is asked for has to be readable.
-/

namespace IterativeDns

/-- How files are reached; `φ` is what is stored. -/
structure FileStore (φ : Type) where
  isThere : String → φ → Bool
  /-- The octets of the file at a path, or why it cannot be read. -/
  read : String → φ → Except String (List UInt8)
  /-- Puts octets into the file at a path, or says why that cannot be done. -/
  write : String → List UInt8 → φ → Except String φ

namespace Settings

def localPath : String := "ferrous-lookup.toml"

def systemPath : String := "/etc/ferrous-lookup/config.toml"

variable {φ : Type} (store : FileStore φ)

/-- The file that is read if none is asked for. -/
def findPath (files : φ) : Option String :=
  [localPath, systemPath].find? fun path => store.isThere path files

/-- Reads settings from the text of a document. -/
def ofText (text : String) : Except SettingsFailure Settings :=
  match Toml.parse? text with
  | none => throw (.malformed "not a TOML document")
  | some d =>
    match ofDocument? .toml d with
    | none => throw (.malformed "a setting has a value of the wrong kind or out of range")
    | some s => return s

/-- Reads settings from the file at a path. -/
def ofFile (files : φ) (path : String) : Except SettingsFailure Settings :=
  match store.read path files with
  | .error reason => throw (.unreadable path reason)
  | .ok octets =>
    match String.fromUTF8? ⟨octets.toArray⟩ with
    | none => throw (.unreadable path "stream did not contain valid UTF-8")
    | some text => ofText text

/-- The settings to use: read from a file, changed by overrides, and usable. -/
def load (files : φ) (path? : Option String) (overrides : Overrides) :
    Except SettingsFailure Settings := do
  let s ← match path? <|> findPath store files with
    | some path => ofFile store files path
    | none => pure {}
  (s.override overrides).validate

/-- Writes settings, usable or not, to the file at a path. -/
def save (s : Settings) (path : String) (files : φ) : Except SettingsFailure φ :=
  match store.write path s.text.toUTF8.data.toList files with
  | .error reason => throw (.unwritable path reason)
  | .ok files => return files

end Settings

end IterativeDns
