import ClassFile.Text

/-!
# Kinds of attributes

The attributes whose meaning the class file format defines, and their names.  Every other attribute
is kept as it is, or is given a meaning by the user of the library.
-/

namespace ClassFile

/-- The attributes with a meaning that the format defines. -/
inductive AttributeKind where
  | annotationDefault | bootstrapMethods | code | constantValue | deprecated | enclosingMethod
  | exceptions | innerClasses | lineNumberTable | localVariableTable | localVariableTypeTable
  | methodParameters | moduleDeclaration | moduleMainClass | modulePackages | nestHost
  | nestMembers | permittedSubclasses | record | runtimeInvisibleAnnotations
  | runtimeInvisibleParameterAnnotations | runtimeInvisibleTypeAnnotations
  | runtimeVisibleAnnotations | runtimeVisibleParameterAnnotations
  | runtimeVisibleTypeAnnotations | signature | sourceDebugExtension | sourceFile | stackMapTable
  | synthetic
  deriving DecidableEq, Inhabited

namespace AttributeKind

/-- Every defined attribute, by name. -/
def all : List AttributeKind :=
  [.annotationDefault, .bootstrapMethods, .code, .constantValue, .deprecated, .enclosingMethod,
   .exceptions, .innerClasses, .lineNumberTable, .localVariableTable, .localVariableTypeTable,
   .methodParameters, .moduleDeclaration, .moduleMainClass, .modulePackages, .nestHost,
   .nestMembers, .permittedSubclasses, .record, .runtimeInvisibleAnnotations,
   .runtimeInvisibleParameterAnnotations, .runtimeInvisibleTypeAnnotations,
   .runtimeVisibleAnnotations, .runtimeVisibleParameterAnnotations,
   .runtimeVisibleTypeAnnotations, .signature, .sourceDebugExtension, .sourceFile,
   .stackMapTable, .synthetic]

/-- The name of an attribute in class files. -/
def name : AttributeKind → String
  | .annotationDefault => "AnnotationDefault"
  | .bootstrapMethods => "BootstrapMethods"
  | .code => "Code"
  | .constantValue => "ConstantValue"
  | .deprecated => "Deprecated"
  | .enclosingMethod => "EnclosingMethod"
  | .exceptions => "Exceptions"
  | .innerClasses => "InnerClasses"
  | .lineNumberTable => "LineNumberTable"
  | .localVariableTable => "LocalVariableTable"
  | .localVariableTypeTable => "LocalVariableTypeTable"
  | .methodParameters => "MethodParameters"
  | .moduleDeclaration => "Module"
  | .moduleMainClass => "ModuleMainClass"
  | .modulePackages => "ModulePackages"
  | .nestHost => "NestHost"
  | .nestMembers => "NestMembers"
  | .permittedSubclasses => "PermittedSubclasses"
  | .record => "Record"
  | .runtimeInvisibleAnnotations => "RuntimeInvisibleAnnotations"
  | .runtimeInvisibleParameterAnnotations => "RuntimeInvisibleParameterAnnotations"
  | .runtimeInvisibleTypeAnnotations => "RuntimeInvisibleTypeAnnotations"
  | .runtimeVisibleAnnotations => "RuntimeVisibleAnnotations"
  | .runtimeVisibleParameterAnnotations => "RuntimeVisibleParameterAnnotations"
  | .runtimeVisibleTypeAnnotations => "RuntimeVisibleTypeAnnotations"
  | .signature => "Signature"
  | .sourceDebugExtension => "SourceDebugExtension"
  | .sourceFile => "SourceFile"
  | .stackMapTable => "StackMapTable"
  | .synthetic => "Synthetic"

/-- The name of an attribute as a text. -/
def text (kind : AttributeKind) : Text :=
  Text.ofString kind.name

/-- The attributes with their names as they are stored. -/
def storedNames : List (AttributeKind × List UInt8) :=
  all.map fun kind => (kind, kind.text.bytes)

/-- The attribute with a given stored name. -/
def ofStored? (stored : List UInt8) : Option AttributeKind :=
  (storedNames.find? fun entry => entry.2 == stored).map Prod.fst

end AttributeKind

end ClassFile
