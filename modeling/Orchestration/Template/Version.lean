import Orchestration.Digest.Algorithm
import Orchestration.Text.Lowercase

/-! # Template versions

A version says which map keys name functions.  The newer version has four functions more, and widens
four of the older ones.
-/

set_option autoImplicit false

namespace Orchestration

inductive Intrinsic where
  | getParam
  | getResource
  | getAttr
  | getAttrAll
  | join
  | joinMultiple
  | replace
  | replaceJson
  | getFile
  | repeatList
  | repeatWithMap
  | digest
  | strSplit
  | mapMerge
  | mapReplace
  | equals
  | resourceFacade
  | removed
  deriving DecidableEq

inductive Version where
  | v20150430
  | v20161014
  deriving DecidableEq

namespace Version

def text : Version → String
  | .v20150430 => "2015-04-30"
  | .v20161014 => "2016-10-14"

/-- A version by its date, or the newer one by its release name. -/
def ofText? (text : String) : Option Version :=
  match text with
  | "2015-04-30" => some .v20150430
  | "2016-10-14" | "newton" => some .v20161014
  | _ => none

/-- Functions of an older template language that are refused by name. -/
def removedNames : List String :=
  ["Fn::GetAZs", "Fn::Join", "Fn::Base64", "Fn::Split", "Fn::Select", "Fn::Replace",
   "Fn::MemberListToMap", "Fn::ResourceFacade", "Fn::GetAtt", "Ref"]

def common? (name : String) : Option Intrinsic :=
  match name with
  | "get_param" => some .getParam
  | "get_resource" => some .getResource
  | "get_file" => some .getFile
  | "digest" => some .digest
  | "resource_facade" => some .resourceFacade
  | _ => if name ∈ removedNames then some .removed else none

def own? (version : Version) (name : String) : Option Intrinsic :=
  match version, name with
  | .v20150430, "get_attr" => some .getAttr
  | .v20150430, "list_join" => some .join
  | .v20150430, "str_replace" => some .replace
  | .v20150430, "repeat" => some .repeatList
  | .v20161014, "get_attr" => some .getAttrAll
  | .v20161014, "list_join" => some .joinMultiple
  | .v20161014, "str_replace" => some .replaceJson
  | .v20161014, "repeat" => some .repeatWithMap
  | .v20161014, "str_split" => some .strSplit
  | .v20161014, "map_merge" => some .mapMerge
  | .v20161014, "map_replace" => some .mapReplace
  | .v20161014, "equals" => some .equals
  | _, _ => none

def function? (version : Version) (name : String) : Option Intrinsic :=
  common? name <|> version.own? name

end Version

/-- How templates are read: the version, and the digests that may be used. -/
structure Template where
  version : Version
  digests : List String

namespace Template

def ofVersion (version : Version) : Template :=
  ⟨version, Digest.supported⟩

/-- Allows only the named digests; case does not matter. -/
def withDigests (template : Template) (names : List String) : Template :=
  { template with digests := names.map Text.lowercase }

end Template

end Orchestration
