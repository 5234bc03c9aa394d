/-!
# Rules

Every diagnostic names the rule it is about by a stable title.
-/

namespace ComponentCompiler

inductive Rule where
  | sectionNoMarkers
  | sectionDuplicate
  | sectionUnsupportedLang
  | sectionUnhandled
  | sectionStrayContent
  | scriptSyntax
  | componentDuplicateType
  | componentTypeNotLiteral
  | componentUnknownSection
  | componentDuplicateSection
  | componentSectionNotLiteral
  | componentInvalidMember
  | componentDuplicateMember
  | componentOptionalSection
  | componentNotExported
  | componentConflictingCreate
  | createNotExported
  | createMissingBody
  | createMissingReturn
  | createReturnNotObject
  | createInvalidMember
  | attributeDuplicateModifier
  | attributeExtraneousModifier
  | attributeMissingValue
  | attributeExpectedCode
  | attributeUnknownReceiver
  | attributeDuplicate
  | tagDuplicateId
  | tagLeafChildren
  | tagIneffectiveModifier
  | syncUnsupportedTag
  | syncMultiple
  | syncModifier
  | syncUnknownName
  | syncUnsupportedType
  | syncDynamicType
  | syncReactiveTarget
  | syncDynamicMultiple
  | componentMeta
  | componentReceiver
  | componentAttributeConflict
  | componentDuplicateAttribute
  | slotDefaultConflict
  | slotDuplicateInsertion
  | slotInsertOutsideComponent
  | slotUnknown
  | slotRequiredFallback
  | slotRequiredUnused
  | slotNoSection
  | slotInvalidName
  | directiveUnknown
  | directiveUnpreceded
  | directiveMissingArgument
  | directiveUnexpectedArgument
  | directiveInvalidArgument
  | directiveAfterElse
  | directiveAfterDefault
  | directiveDuplicateDefault
  | directiveNoCases
  | templateDuplicate
  | templateUnknown
  | templateNotTopLevel
  | templateEmpty
  deriving DecidableEq, Repr

namespace Rule

def title : Rule → String
  | .sectionNoMarkers => "SECTION_NO_MARKERS"
  | .sectionDuplicate => "SECTION_DUPLICATE"
  | .sectionUnsupportedLang => "SECTION_UNSUPPORTED_LANG"
  | .sectionUnhandled => "SECTION_UNHANDLED"
  | .sectionStrayContent => "SECTION_STRAY_CONTENT"
  | .scriptSyntax => "SCRIPT_SYNTAX"
  | .componentDuplicateType => "COMPONENT_DUPLICATE_TYPE"
  | .componentTypeNotLiteral => "COMPONENT_TYPE_NOT_LITERAL"
  | .componentUnknownSection => "COMPONENT_UNKNOWN_SECTION"
  | .componentDuplicateSection => "COMPONENT_DUPLICATE_SECTION"
  | .componentSectionNotLiteral => "COMPONENT_SECTION_NOT_LITERAL"
  | .componentInvalidMember => "COMPONENT_INVALID_MEMBER"
  | .componentDuplicateMember => "COMPONENT_DUPLICATE_MEMBER"
  | .componentOptionalSection => "COMPONENT_OPTIONAL_SECTION"
  | .componentNotExported => "COMPONENT_NOT_EXPORTED"
  | .componentConflictingCreate => "COMPONENT_CONFLICTING_CREATE"
  | .createNotExported => "CREATE_NOT_EXPORTED"
  | .createMissingBody => "CREATE_MISSING_BODY"
  | .createMissingReturn => "CREATE_MISSING_RETURN"
  | .createReturnNotObject => "CREATE_RETURN_NOT_OBJECT"
  | .createInvalidMember => "CREATE_INVALID_MEMBER"
  | .attributeDuplicateModifier => "ATTRIBUTE_DUPLICATE_MODIFIER"
  | .attributeExtraneousModifier => "ATTRIBUTE_EXTRANEOUS_MODIFIER"
  | .attributeMissingValue => "ATTRIBUTE_MISSING_VALUE"
  | .attributeExpectedCode => "ATTRIBUTE_EXPECTED_CODE"
  | .attributeUnknownReceiver => "ATTRIBUTE_UNKNOWN_RECEIVER"
  | .attributeDuplicate => "ATTRIBUTE_DUPLICATE"
  | .tagDuplicateId => "TAG_DUPLICATE_ID"
  | .tagLeafChildren => "TAG_LEAF_CHILDREN"
  | .tagIneffectiveModifier => "TAG_INEFFECTIVE_MODIFIER"
  | .syncUnsupportedTag => "SYNC_UNSUPPORTED_TAG"
  | .syncMultiple => "SYNC_MULTIPLE"
  | .syncModifier => "SYNC_MODIFIER"
  | .syncUnknownName => "SYNC_UNKNOWN_NAME"
  | .syncUnsupportedType => "SYNC_UNSUPPORTED_TYPE"
  | .syncDynamicType => "SYNC_DYNAMIC_TYPE"
  | .syncReactiveTarget => "SYNC_REACTIVE_TARGET"
  | .syncDynamicMultiple => "SYNC_DYNAMIC_MULTIPLE"
  | .componentMeta => "COMPONENT_META"
  | .componentReceiver => "COMPONENT_RECEIVER"
  | .componentAttributeConflict => "COMPONENT_ATTRIBUTE_CONFLICT"
  | .componentDuplicateAttribute => "COMPONENT_DUPLICATE_ATTRIBUTE"
  | .slotDefaultConflict => "SLOT_DEFAULT_CONFLICT"
  | .slotDuplicateInsertion => "SLOT_DUPLICATE_INSERTION"
  | .slotInsertOutsideComponent => "SLOT_INSERT_OUTSIDE_COMPONENT"
  | .slotUnknown => "SLOT_UNKNOWN"
  | .slotRequiredFallback => "SLOT_REQUIRED_FALLBACK"
  | .slotRequiredUnused => "SLOT_REQUIRED_UNUSED"
  | .slotNoSection => "SLOT_NO_SECTION"
  | .slotInvalidName => "SLOT_INVALID_NAME"
  | .directiveUnknown => "DIRECTIVE_UNKNOWN"
  | .directiveUnpreceded => "DIRECTIVE_UNPRECEDED"
  | .directiveMissingArgument => "DIRECTIVE_MISSING_ARGUMENT"
  | .directiveUnexpectedArgument => "DIRECTIVE_UNEXPECTED_ARGUMENT"
  | .directiveInvalidArgument => "DIRECTIVE_INVALID_ARGUMENT"
  | .directiveAfterElse => "DIRECTIVE_AFTER_ELSE"
  | .directiveAfterDefault => "DIRECTIVE_AFTER_DEFAULT"
  | .directiveDuplicateDefault => "DIRECTIVE_DUPLICATE_DEFAULT"
  | .directiveNoCases => "DIRECTIVE_NO_CASES"
  | .templateDuplicate => "TEMPLATE_DUPLICATE"
  | .templateUnknown => "TEMPLATE_UNKNOWN"
  | .templateNotTopLevel => "TEMPLATE_NOT_TOP_LEVEL"
  | .templateEmpty => "TEMPLATE_EMPTY"

def all : List Rule :=
  [.sectionNoMarkers, .sectionDuplicate, .sectionUnsupportedLang, .sectionUnhandled,
    .sectionStrayContent, .scriptSyntax, .componentDuplicateType, .componentTypeNotLiteral,
    .componentUnknownSection, .componentDuplicateSection, .componentSectionNotLiteral,
    .componentInvalidMember, .componentDuplicateMember, .componentOptionalSection,
    .componentNotExported, .componentConflictingCreate, .createNotExported, .createMissingBody,
    .createMissingReturn, .createReturnNotObject, .createInvalidMember,
    .attributeDuplicateModifier, .attributeExtraneousModifier, .attributeMissingValue,
    .attributeExpectedCode, .attributeUnknownReceiver, .attributeDuplicate, .tagDuplicateId,
    .tagLeafChildren, .tagIneffectiveModifier, .syncUnsupportedTag, .syncMultiple,
    .syncModifier, .syncUnknownName, .syncUnsupportedType, .syncDynamicType,
    .syncReactiveTarget, .syncDynamicMultiple, .componentMeta, .componentReceiver,
    .componentAttributeConflict, .componentDuplicateAttribute, .slotDefaultConflict,
    .slotDuplicateInsertion, .slotInsertOutsideComponent, .slotUnknown, .slotRequiredFallback,
    .slotRequiredUnused, .slotNoSection, .slotInvalidName, .directiveUnknown,
    .directiveUnpreceded, .directiveMissingArgument, .directiveUnexpectedArgument,
    .directiveInvalidArgument, .directiveAfterElse, .directiveAfterDefault,
    .directiveDuplicateDefault, .directiveNoCases, .templateDuplicate, .templateUnknown,
    .templateNotTopLevel, .templateEmpty]

def ofTitle? (title : String) : Option Rule :=
  all.find? fun rule => rule.title = title

end Rule

end ComponentCompiler
