import Toolpath.Settings.Text
import Toolpath.Store

/-!
# Settings in files

A file of settings is JSON or TOML; its name says which. Settings that are read are checked before
they are handed out, and settings that are to be kept are checked before anything is written.
-/

namespace Toolpath

/-- The formats in which settings are kept. -/
inductive SettingsFormat where
  | json
  | toml
  deriving DecidableEq, Repr

/-- Why settings cannot be read or kept. -/
inductive SettingsError where
  | outOfRange (fault : SettingFault)
  | unknownFormat (path : String)
  | store (e : StoreError)
  | json (e : Json.ReadError)
  | toml
  deriving DecidableEq, Repr

namespace SettingsFormat

/-- The format that a path's extension stands for. -/
def ofPath? (path : String) : Option SettingsFormat :=
  match Path.extension? path with
  | some "json" => some .json
  | some "toml" => some .toml
  | _ => none

/-- The format of a path; any other extension is an error. -/
def ofPath (path : String) : Except SettingsError SettingsFormat :=
  match ofPath? path with
  | some format => .ok format
  | none => .error (.unknownFormat path)

/-- Settings as text. -/
def write (format : SettingsFormat) (s : Settings Float) : String :=
  match format with
  | .json => s.jsonText
  | .toml => s.tomlText

/-- Settings from text, not yet checked. -/
def read (format : SettingsFormat) (text : String) : Except SettingsError (Settings Float) :=
  match format with
  | .json =>
    match Settings.ofJsonText text with
    | .ok s => .ok s
    | .error e => .error (.json e)
  | .toml =>
    match Settings.ofTomlText? text with
    | some s => .ok s
    | none => .error .toml

end SettingsFormat

namespace Settings

/-- Settings that are known to be in range. -/
def check (s : Settings Float) : Except SettingsError (Settings Float) :=
  match s.fault? with
  | none => .ok s
  | some fault => .error (.outOfRange fault)

/-- Read settings from a text of a known format, and check them. -/
def ofText (format : SettingsFormat) (text : String) : Except SettingsError (Settings Float) :=
  (format.read text).bind check

/-- Read settings from a file, and check them. The file is read before its name is looked at. -/
def load (source : TextSource) (path : String) : Except SettingsError (Settings Float) :=
  match source path with
  | .error e => .error (.store e)
  | .ok text =>
    match SettingsFormat.ofPath path with
    | .error e => .error e
    | .ok format => ofText format text

/-- Keep settings in a file, if they are in range; also the store as it is then. -/
def save (s : Settings Float) (path : String) (store : Store) : Store × Except SettingsError Unit :=
  match s.check with
  | .error e => (store, .error e)
  | .ok _ =>
    match SettingsFormat.ofPath path with
    | .error e => (store, .error e)
    | .ok format =>
      match store.writeText path (format.write s) with
      | .error e => (store, .error (.store e))
      | .ok store => (store, .ok ())

end Settings

/-- The text of an error; what is wrong with a text of a format is not told. -/
def SettingsError.message : SettingsError → String
  | .outOfRange fault => fault.message
  | .unknownFormat path =>
    s!"Unsupported config format: {path} (config file must be .json or .toml)"
  | .store e => s!"I/O error: {e.message}"
  | .json _ => "JSON error"
  | .toml => "TOML error"

end Toolpath
