namespace UmkaSyntax

inductive NodeKind
  | program
  | fragment
  /- Declarations. -/
  | imports | importItem | constDecl | constItem | varDecl | varItem
  /-- A declaration by `:=` outside of blocks. -/
  | shortVarDecl
  /-- A declaration by `:=` inside a block. -/
  | declAssignment
  | typeDecl | typeItem | fnDecl | methodDecl
  | receiver | signature | parameterList | nameList | typedNameList | exprList
  /- Statements. -/
  | block | callStmt | arguments
  /- Types. -/
  | qualifiedName | ptrType | arrayType | dynArrayType | enumType | enumItem | structType
  | mapType | interfaceType | interfaceItem | closureType
  /- Expressions. -/
  | primary | builtinCall | arrayLiteral | mapLiteral | mapEntry
  | decNumber | hexNumber | realNumber
  | stringLiteral | formatLiteral | pathLiteral | charLiteral | moduleRef
  | error
  deriving DecidableEq

namespace NodeKind

def all : List NodeKind :=
  [program, fragment, imports, importItem, constDecl, constItem, varDecl, varItem, shortVarDecl,
    declAssignment, typeDecl, typeItem, fnDecl, methodDecl, receiver, signature, parameterList,
    nameList, typedNameList, exprList, block, callStmt, arguments, qualifiedName, ptrType,
    arrayType, dynArrayType, enumType, enumItem, structType, mapType, interfaceType,
    interfaceItem, closureType, primary, builtinCall, arrayLiteral, mapLiteral, mapEntry,
    decNumber, hexNumber, realNumber, stringLiteral, formatLiteral, pathLiteral, charLiteral,
    moduleRef, error]

def names : NodeKind → String × String
  | program => ("program", "Program")
  | fragment => ("fragment", "Fragment")
  | imports => ("import", "Import")
  | importItem => ("import_item", "ImportItem")
  | constDecl => ("const_decl", "ConstDecl")
  | constItem => ("const_decl_item", "ConstDeclItem")
  | varDecl => ("full_var_decl", "FullVarDecl")
  | varItem => ("var_decl_item", "VarDeclItem")
  | shortVarDecl => ("short_var_decl", "ShortVarDecl")
  | declAssignment => ("decl_assignment_stmt", "DeclAssignmentStmt")
  | typeDecl => ("type_decl", "TypeDecl")
  | typeItem => ("type_decl_item", "TypeDeclItem")
  | fnDecl => ("fn_decl", "FnDecl")
  | methodDecl => ("method_decl", "MethodDecl")
  | receiver => ("rcv_signature", "RcvSignature")
  | signature => ("signature", "Signature")
  | parameterList => ("parameter_list", "ParameterList")
  | nameList => ("ident_list", "IdentList")
  | typedNameList => ("typed_ident_list", "TypedIdentList")
  | exprList => ("expr_list", "ExprList")
  | block => ("block", "Block")
  | callStmt => ("call_stmt", "CallStmt")
  | arguments => ("arguments", "Arguments")
  | qualifiedName => ("qual_ident", "QualIdent")
  | ptrType => ("ptr_type", "PtrType")
  | arrayType => ("array_type", "ArrayType")
  | dynArrayType => ("dyn_array_type", "DynArrayType")
  | enumType => ("enum_type", "EnumType")
  | enumItem => ("enum_item", "EnumItem")
  | structType => ("struct_type", "StructType")
  | mapType => ("map_type", "MapType")
  | interfaceType => ("interface_type", "InterfaceType")
  | interfaceItem => ("interface_item", "InterfaceItem")
  | closureType => ("closure_type", "ClosureType")
  | primary => ("primary", "Primary")
  | builtinCall => ("builtin_call", "BuiltinCall")
  | arrayLiteral => ("array_literal", "ArrayLiteral")
  | mapLiteral => ("map_literal", "MapLiteral")
  | mapEntry => ("map_entry", "MapEntry")
  | decNumber => ("dec_number", "DecNumber")
  | hexNumber => ("hex_number", "HexNumber")
  | realNumber => ("real_number", "RealNumber")
  | stringLiteral => ("string_literal", "StringLiteral")
  | formatLiteral => ("string_fmt_literal", "StringFmtLiteral")
  | pathLiteral => ("string_import_literal", "StringImportLiteral")
  | charLiteral => ("char_literal", "CharLiteral")
  | moduleRef => ("mod_seq", "ModSeq")
  | error => ("ERROR", "Error")

def grammarName (kind : NodeKind) : String := kind.names.1

def tag (kind : NodeKind) : String := kind.names.2

def ofTag? (tag : String) : Option NodeKind := all.find? (·.tag == tag)

end NodeKind

inductive FieldName
  | name | value | values | identifiers | exported | signature | body | receiver | type | params
  | defaultValue | module | arguments | designator | key
  deriving DecidableEq

namespace FieldName

def all : List FieldName :=
  [name, value, values, identifiers, exported, signature, body, receiver, type, params,
    defaultValue, module, arguments, designator, key]

def names : FieldName → String × String
  | name => ("name", "Name")
  | value => ("value", "Value")
  | values => ("values", "Values")
  | identifiers => ("identifiers", "Identifiers")
  | exported => ("exported", "Exported")
  | signature => ("signature", "Signature")
  | body => ("body", "Body")
  | receiver => ("receiver", "Receiver")
  | type => ("type", "Type")
  | params => ("params", "Params")
  | defaultValue => ("defaultValue", "DefaultValue")
  | module => ("module", "Module")
  | arguments => ("arguments", "Arguments")
  | designator => ("designator", "Designator")
  | key => ("key", "Key")

def printed (field : FieldName) : String := field.names.1

def tag (field : FieldName) : String := field.names.2

def ofTag? (tag : String) : Option FieldName := all.find? (·.tag == tag)

end FieldName

end UmkaSyntax
