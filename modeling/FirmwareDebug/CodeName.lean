/-! # Names of the codes

The standard gives names to the numbers it uses for operations, forms, tags and list entries.
Messages show the name, or the number in decimal where there is no name.
-/

namespace FirmwareDebug.CodeName

def operations : List (Nat × String) := [
  (0x3, "addr"), (0x6, "deref"), (0x8, "const1u"), (0x9, "const1s"), (0xa, "const2u"), (0xb, "const2s"),
    (0xc, "const4u"), (0xd, "const4s"), (0xe, "const8u"), (0xf, "const8s"), (0x10, "constu"),
    (0x11, "consts"), (0x12, "dup"), (0x13, "drop"), (0x14, "over"), (0x15, "pick"), (0x16, "swap"),
    (0x17, "rot"), (0x18, "xderef"), (0x19, "abs"), (0x1a, "and"), (0x1b, "div"), (0x1c, "minus"),
    (0x1d, "mod"), (0x1e, "mul"), (0x1f, "neg"), (0x20, "not"), (0x21, "or"), (0x22, "plus"),
    (0x23, "plus_uconst"), (0x24, "shl"), (0x25, "shr"), (0x26, "shra"), (0x27, "xor"), (0x28, "bra"),
    (0x29, "eq"), (0x2a, "ge"), (0x2b, "gt"), (0x2c, "le"), (0x2d, "lt"), (0x2e, "ne"), (0x2f, "skip"),
    (0x90, "regx"), (0x91, "fbreg"), (0x92, "bregx"), (0x93, "piece"), (0x94, "deref_size"),
    (0x95, "xderef_size"), (0x96, "nop"), (0x97, "push_object_address"), (0x98, "call2"), (0x99, "call4"),
    (0x9a, "call_ref"), (0x9b, "form_tls_address"), (0x9c, "call_frame_cfa"), (0x9d, "bit_piece"),
    (0x9e, "implicit_value"), (0x9f, "stack_value"), (0xa0, "implicit_pointer"), (0xa1, "addrx"),
    (0xa2, "constx"), (0xa3, "entry_value"), (0xa4, "const_type"), (0xa5, "regval_type"),
    (0xa6, "deref_type"), (0xa7, "xderef_type"), (0xa8, "convert"), (0xa9, "reinterpret"),
    (0xe0, "GNU_push_tls_address"), (0xed, "WASM_location"), (0xf2, "GNU_implicit_pointer"),
    (0xf3, "GNU_entry_value"), (0xf4, "GNU_const_type"), (0xf5, "GNU_regval_type"),
    (0xf6, "GNU_deref_type"), (0xf7, "GNU_convert"), (0xf9, "GNU_reinterpret"), (0xfa, "GNU_parameter_ref"),
    (0xfb, "GNU_addr_index"), (0xfc, "GNU_const_index")]

def forms : List (Nat × String) := [
  (0x0, "null"), (0x1, "addr"), (0x2, "ref"), (0x3, "block2"), (0x4, "block4"), (0x5, "data2"),
    (0x6, "data4"), (0x7, "data8"), (0x8, "string"), (0x9, "block"), (0xa, "block1"), (0xb, "data1"),
    (0xc, "flag"), (0xd, "sdata"), (0xe, "strp"), (0xf, "udata"), (0x10, "ref_addr"), (0x11, "ref1"),
    (0x12, "ref2"), (0x13, "ref4"), (0x14, "ref8"), (0x15, "ref_udata"), (0x16, "indirect"),
    (0x17, "sec_offset"), (0x18, "exprloc"), (0x19, "flag_present"), (0x1a, "strx"), (0x1b, "addrx"),
    (0x1c, "ref_sup4"), (0x1d, "strp_sup"), (0x1e, "data16"), (0x1f, "line_strp"), (0x20, "ref_sig8"),
    (0x21, "implicit_const"), (0x22, "loclistx"), (0x23, "rnglistx"), (0x24, "ref_sup8"), (0x25, "strx1"),
    (0x26, "strx2"), (0x27, "strx3"), (0x28, "strx4"), (0x29, "addrx1"), (0x2a, "addrx2"), (0x2b, "addrx3"),
    (0x2c, "addrx4"), (0x1f01, "GNU_addr_index"), (0x1f02, "GNU_str_index"), (0x1f20, "GNU_ref_alt"),
    (0x1f21, "GNU_strp_alt")]

set_option maxRecDepth 2000 in
def tags : List (Nat × String) := [
  (0x0, "null"), (0x1, "array_type"), (0x2, "class_type"), (0x3, "entry_point"), (0x4, "enumeration_type"),
    (0x5, "formal_parameter"), (0x6, "global_subroutine"), (0x7, "global_variable"),
    (0x8, "imported_declaration"), (0xa, "label"), (0xb, "lexical_block"), (0xc, "local_variable"),
    (0xd, "member"), (0xf, "pointer_type"), (0x10, "reference_type"), (0x11, "compile_unit"),
    (0x12, "string_type"), (0x13, "structure_type"), (0x14, "subroutine"), (0x15, "subroutine_type"),
    (0x16, "typedef"), (0x17, "union_type"), (0x18, "unspecified_parameters"), (0x19, "variant"),
    (0x1a, "common_block"), (0x1b, "common_inclusion"), (0x1c, "inheritance"), (0x1d, "inlined_subroutine"),
    (0x1e, "module"), (0x1f, "ptr_to_member_type"), (0x20, "set_type"), (0x21, "subrange_type"),
    (0x22, "with_stmt"), (0x23, "access_declaration"), (0x24, "base_type"), (0x25, "catch_block"),
    (0x26, "const_type"), (0x27, "constant"), (0x28, "enumerator"), (0x29, "file_type"), (0x2a, "friend"),
    (0x2b, "namelist"), (0x2c, "namelist_item"), (0x2d, "packed_type"), (0x2e, "subprogram"),
    (0x2f, "template_type_parameter"), (0x30, "template_value_parameter"), (0x31, "thrown_type"),
    (0x32, "try_block"), (0x33, "variant_part"), (0x34, "variable"), (0x35, "volatile_type"),
    (0x36, "dwarf_procedure"), (0x37, "restrict_type"), (0x38, "interface_type"), (0x39, "namespace"),
    (0x3a, "imported_module"), (0x3b, "unspecified_type"), (0x3c, "partial_unit"), (0x3d, "imported_unit"),
    (0x3f, "condition"), (0x40, "shared_type"), (0x41, "type_unit"), (0x42, "rvalue_reference_type"),
    (0x43, "template_alias"), (0x44, "coarray_type"), (0x45, "generic_subrange"), (0x46, "dynamic_type"),
    (0x47, "atomic_type"), (0x48, "call_site"), (0x49, "call_site_parameter"), (0x4a, "skeleton_unit"),
    (0x4b, "immutable_type"), (0x4080, "lo_user"), (0x4081, "MIPS_loop"), (0x4090, "HP_array_descriptor"),
    (0x4091, "HP_Bliss_field"), (0x4092, "HP_Bliss_field_set"), (0x4101, "format_label"),
    (0x4102, "function_template"), (0x4103, "class_template"), (0x4104, "GNU_BINCL"), (0x4105, "GNU_EINCL"),
    (0x4106, "GNU_template_template_param"), (0x4107, "GNU_template_parameter_pack"),
    (0x4108, "GNU_formal_parameter_pack"), (0x4109, "GNU_call_site"), (0x410a, "GNU_call_site_parameter"),
    (0x4200, "APPLE_property"), (0x4201, "SUN_function_template"), (0x4202, "SUN_class_template"),
    (0x4203, "SUN_struct_template"), (0x4204, "SUN_union_template"), (0x4205, "SUN_indirect_inheritance"),
    (0x4206, "SUN_codeflags"), (0x4207, "SUN_memop_info"), (0x4208, "SUN_omp_child_func"),
    (0x4209, "SUN_rtti_descriptor"), (0x420a, "SUN_dtor_info"), (0x420b, "SUN_dtor"),
    (0x420c, "SUN_f90_interface"), (0x420d, "SUN_fortran_vax_structure"), (0x5101, "ALTIUM_circ_type"),
    (0x5102, "ALTIUM_mwa_circ_type"), (0x5103, "ALTIUM_rev_carry_type"), (0x5111, "ALTIUM_rom"),
    (0x8765, "upc_shared_type"), (0x8766, "upc_strict_type"), (0x8767, "upc_relaxed_type"),
    (0xa000, "PGI_kanji_type"), (0xa020, "PGI_interface_block"), (0xb000, "BORLAND_property"),
    (0xb001, "BORLAND_Delphi_string"), (0xb002, "BORLAND_Delphi_dynamic_array"),
    (0xb003, "BORLAND_Delphi_set"), (0xb004, "BORLAND_Delphi_variant"), (0xffff, "hi_user")]

/-- The name in a table, behind its family's mark, or the number behind the family's word. -/
def look (table : List (Nat × String)) (mark word : String) (code : Nat) : String :=
  match table.lookup code with
  | some name => mark ++ name
  | none => "Unknown " ++ word ++ ": " ++ toString code

def operation (code : UInt8) : String :=
  let n := code.toNat
  if 0x30 ≤ n ∧ n < 0x50 then "DW_OP_lit" ++ toString (n - 0x30)
  else if 0x50 ≤ n ∧ n < 0x70 then "DW_OP_reg" ++ toString (n - 0x50)
  else if 0x70 ≤ n ∧ n < 0x90 then "DW_OP_breg" ++ toString (n - 0x70)
  else look operations "DW_OP_" "DwOp" n

def form (code : UInt16) : String := look forms "DW_FORM_" "DwForm" code.toNat

def tag (code : UInt16) : String := look tags "DW_TAG_" "DwTag" code.toNat

def rangeEntry (code : UInt8) : String :=
  look [(0, "end_of_list"), (1, "base_addressx"), (2, "startx_endx"), (3, "startx_length"),
    (4, "offset_pair"), (5, "base_address"), (6, "start_end"), (7, "start_length")]
    "DW_RLE_" "DwRle" code.toNat

def locationEntry (code : UInt8) : String :=
  look [(0, "end_of_list"), (1, "base_addressx"), (2, "startx_endx"), (3, "startx_length"),
    (4, "offset_pair"), (5, "default_location"), (6, "base_address"), (7, "start_end"),
    (8, "start_length"), (9, "GNU_view_pair")]
    "DW_LLE_" "DwLle" code.toNat

def unitKind (code : UInt8) : String :=
  look [(1, "compile"), (2, "type"), (3, "partial"), (4, "skeleton"), (5, "split_compile"),
    (6, "split_type"), (0x80, "lo_user"), (0xff, "hi_user")]
    "DW_UT_" "DwUt" code.toNat

end FirmwareDebug.CodeName
