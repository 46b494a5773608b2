/-! # Template errors

What can be wrong with a template: a fault in the arguments of a function, or a reference to
something that is not there.
-/

set_option autoImplicit false

namespace Orchestration

inductive Fault where
  | attributeArgumentsNotList
  | attributeArguments
  | attributeArgumentForms
  | joinPairUsage
  | joinUsage
  | argumentsNotMap
  | replaceUsage
  | repeatUsage
  | parametersNotMapping
  | equalsUsage
  | facadeUsage
  | facadeAttribute
  | splitUsage
  | splitIndexUsage
  | splitIndexRange (last : Nat)
  | emptySeparator
  | parameterNameNotText
  | noArguments
  | notTextOrList
  | resourceNameNotText
  | attributeNameNotText
  | delimiterNotText
  | joinNotList
  | joinItemsNotText
  | templateNotText
  | paramsNotMap
  | emptyPlaceholder
  | paramsNotScalar
  | argumentNotText
  | forEachNotMap
  | forEachNotLists
  | digestNotTexts
  | digestUsage
  | digestNotAllowed (allowed : List String)
  | digestUnavailable (algorithm : String)
  | mergeUsage
  | mergeNotMaps
  | mapReplaceUsage
  | inputKeyCollision (key : String)
  | outputKeyCollision (key : String)
  deriving DecidableEq

namespace Fault

def message : Fault → String
  | .attributeArgumentsNotList => "argument must be a list"
  | .attributeArguments =>
    "arguments must be of the form [resource_name, attribute, (path), ...]"
  | .attributeArgumentForms =>
    "arguments can be of the next forms: [resource_name] or " ++
      "[resource_name, attribute, (path), ...]"
  | .joinPairUsage => "incorrect arguments, should be: [ \" \", [ \"str1\", \"str2\"]]"
  | .joinUsage => "incorrect arguments, should be: [ \" \", [ \"str1\", \"str2\"] ...]"
  | .argumentsNotMap => "arguments must be a map"
  | .replaceUsage =>
    "syntax should be str_replace:\n  template: This is var1 template var2\n" ++
      "  params:\n    var1: a\n    var2: string"
  | .repeatUsage =>
    "syntax should be repeat:\n  template: This is %var%\n  for_each:\n    %var%: ['a', 'b', 'c']"
  | .parametersNotMapping => "parameters must be a mapping"
  | .equalsUsage => "arguments must be of the form: [value_1, value_2]"
  | .facadeUsage => "argument should be one of: metadata, deletion_policy, update_policy"
  | .facadeAttribute => "unknown facade attribute"
  | .splitUsage => "incorrect arguments, should be: [ \",\", \"apples,pears\", <index>]"
  | .splitIndexUsage => "incorrect index, should be: [ \",\", \"apples,pears\", <index>]"
  | .splitIndexRange last =>
    "incorrect index, should be between 0 and " ++ String.ofList (Nat.toDigits 10 last)
  | .emptySeparator => "empty separator"
  | .parameterNameNotText => "parameter name must be a string"
  | .noArguments => "function must have arguments"
  | .notTextOrList => "argument must be string or list"
  | .resourceNameNotText => "resource name must be a string"
  | .attributeNameNotText => "attribute name must be a string"
  | .delimiterNotText => "delimiter must be a string"
  | .joinNotList => "must operate on a list"
  | .joinItemsNotText => "items to join must be strings"
  | .templateNotText => "template must be a string"
  | .paramsNotMap => "params must be a map"
  | .emptyPlaceholder => "param placeholders must not be empty"
  | .paramsNotScalar => "params must be strings or numbers"
  | .argumentNotText => "argument must be a string"
  | .forEachNotMap => "the \"for_each\" argument must contain a map"
  | .forEachNotLists => "the values of the \"for_each\" argument must be lists"
  | .digestNotTexts => "argument must be a list of strings"
  | .digestUsage => "usage: [\"<algorithm>\", \"<value>\"]"
  | .digestNotAllowed allowed => "algorithm must be one of " ++ String.intercalate ", " allowed
  | .digestUnavailable algorithm =>
    "algorithm " ++ algorithm ++ " is allowed but not available"
  | .mergeUsage =>
    "incorrect arguments, should be: [ \x7b \"key1\": \"val1\" \x7d, " ++
      "\x7b \"key2\": \"val2\" \x7d ]"
  | .mergeNotMaps => "incorrect arguments: items to merge must be maps"
  | .mapReplaceUsage =>
    "incorrect arguments, should be: [ \x7b \"key1\": \"val1\" \x7d, " ++
      "\x7b\"keys\": \x7b\"key1\": \"key2\"\x7d, \"values\": \x7b\"val1\": \"val2\"\x7d\x7d]"
  | .inputKeyCollision key =>
    "key replacement " ++ key ++ " collides with a key in the input map"
  | .outputKeyCollision key =>
    "key replacement " ++ key ++ " collides with a key in the output map"

/-- Faults in the shape of the arguments that are found when a template is read. -/
def isShape : Fault → Bool
  | .attributeArgumentsNotList | .attributeArguments | .attributeArgumentForms | .joinPairUsage
  | .joinUsage | .argumentsNotMap | .replaceUsage | .repeatUsage | .parametersNotMapping
  | .equalsUsage | .facadeUsage | .facadeAttribute => true
  | _ => false

end Fault

inductive TemplateError where
  | invalid (function : String) (fault : Fault)
  | missingParameter (name : String)
  | unknownResource (resource : String)
  | unknownAttribute (resource name : String)
  | missingFile (function key : String)
  | removed (function : String)
  | noFacade (function : String)
  | unknownVersion (text : String)
  deriving DecidableEq

namespace TemplateError

def message : TemplateError → String
  | .invalid function fault => function ++ ": " ++ fault.message
  | .missingParameter name => "the parameter (" ++ name ++ ") was not provided"
  | .unknownResource resource =>
    "the specified reference \"" ++ resource ++ "\" (in unknown) is incorrect"
  | .unknownAttribute resource name =>
    "the referenced attribute (" ++ resource ++ " " ++ name ++ ") is incorrect"
  | .missingFile function key =>
    "no content found in the \"files\" section for " ++ function ++ " path: " ++ key
  | .removed function => "the function " ++ function ++ " is not supported in this version of HOT"
  | .noFacade function =>
    function ++ " is only valid inside a provider template with a facade resource"
  | .unknownVersion text => "unknown template version: " ++ text

/-- The template refers to something that is not there; otherwise it is malformed. -/
def isMissingReference : TemplateError → Bool
  | .missingParameter _ | .unknownResource _ | .missingFile _ _ | .noFacade _ => true
  | _ => false

end TemplateError

end Orchestration
